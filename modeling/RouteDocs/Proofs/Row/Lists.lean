import RouteDocs.Proofs.Catalog

/-!
# Lists in a row of nodes

A row of nodes, read from a place on, has at most one list that counts for each
place: the first one that stands there. `list?` finds it and `change` changes
it. Both read the row as the catalog does, without labels, so that two pages can
be compared by their nodes alone.

Results:
* `list?_append`, `change_append_of_none`: reading a row is reading its first part and then the
  second.
* `list?_congr`, `change_congr`: in front of a heading, or at the end, the subsection in force is
  all one.
* `list?_change`: the lists of a row in which one has been changed.
* `change_comm`: changes of the lists of two places commute.
-/
namespace RouteDocs.Row

def list? (k : Place) : Place → List Node → Option Node
  | _, [] => none
  | p, n :: rest =>
    if n.isA .definitionList = true ∧ p = k then some n else list? k (p.after n) rest

def change (k : Place) (f : Node → Node) : Place → List Node → List Node
  | _, [] => []
  | p, n :: rest =>
    if n.isA .definitionList = true ∧ p = k then f n :: rest
    else n :: change k f (p.after n) rest

/-- A row starts with a heading of the levels one to four, or it is empty. -/
def StartsWithHeading (ns : List Node) : Prop :=
  ∀ n, ns.head? = some n → n.endsSection = true ∨ n.isA .head4 = true

section
variable {k k' p q : Place} {f g : Node → Node} {n : Node} {ns ms : List Node}

theorem list?_cons_of_list (h : n.isA .definitionList = true) (hp : p = k) (rest : List Node) :
    list? k p (n :: rest) = some n := by
  rw [list?, if_pos ⟨h, hp⟩]

theorem list?_cons_of_not (h : ¬(n.isA .definitionList = true ∧ p = k)) (rest : List Node) :
    list? k p (n :: rest) = list? k (p.after n) rest := by
  rw [list?, if_neg h]

theorem list?_append (k p : Place) (ns ms : List Node) :
    list? k p (ns ++ ms) = (list? k p ns).or (list? k (p.afterAll ns) ms) := by
  induction ns generalizing p with
  | nil => rfl
  | cons n rest ih =>
    simp only [List.cons_append, list?]
    split
    · rfl
    · exact ih (p.after n)

theorem change_append_of_none (f : Node → Node) (h : list? k p ns = none) (ms : List Node) :
    change k f p (ns ++ ms) = ns ++ change k f (p.afterAll ns) ms := by
  induction ns generalizing p with
  | nil => rfl
  | cons n rest ih =>
    simp only [list?] at h
    split at h
    · cases h
    · rename_i hn
      rw [List.cons_append, change, if_neg hn, ih h]
      rfl

theorem not_list_of_heading (h : n.endsSection = true ∨ n.isA .head4 = true) :
    n.isA .definitionList = false := by
  rcases h with h | h
  · rcases Node.endsSection_iff.1 h with h | h | h <;> exact Node.isA_eq_false h nofun
  · exact Node.isA_eq_false h nofun

/-- After a heading nothing is left of the subsection before it. -/
theorem after_heading (hpq : p.routeSection = q.routeSection)
    (h : n.endsSection = true ∨ n.isA .head4 = true) : p.after n = q.after n := by
  rcases h with h | h
  · exact Place.after_endsSection h p q
  · rw [Place.after_head4 h, Place.after_head4 h, hpq]

theorem list?_congr (hpq : p.routeSection = q.routeSection) (h : StartsWithHeading ns) :
    list? k p ns = list? k q ns := by
  cases ns with
  | nil => rfl
  | cons n rest =>
    have hn := h n rfl
    have hlist := not_list_of_heading hn
    simp [list?, hlist, after_heading hpq hn]

theorem change_congr (hpq : p.routeSection = q.routeSection) (h : StartsWithHeading ns) :
    change k f p ns = change k f q ns := by
  cases ns with
  | nil => rfl
  | cons n rest =>
    have hn := h n rfl
    have hlist := not_list_of_heading hn
    simp [change, hlist, after_heading hpq hn]

/-! ## Changes that keep the kind -/

/-- A change of nodes that keeps their kinds. -/
def KeepsKind (f : Node → Node) : Prop :=
  ∀ n, (f n).kind? = n.kind?

theorem KeepsKind.isA (hf : KeepsKind f) (n : Node) (l : Kind) : (f n).isA l = n.isA l := by
  rw [Node.isA, hf, Node.isA]

theorem KeepsKind.after (hf : KeepsKind f) (h : n.isA .definitionList = true) (p : Place) :
    p.after (f n) = p.after n := by
  rw [Place.after_of_isA h rfl, Place.after_of_isA ((hf.isA n _).trans h) rfl]

/-- A changed list is the list of its place, and all others are as they were. -/
theorem list?_change (hf : KeepsKind f) (k k' p : Place) (ns : List Node) :
    list? k' p (change k f p ns) = if k' = k then (list? k p ns).map f else list? k' p ns := by
  induction ns generalizing p with
  | nil => simp [change, list?]
  | cons n rest ih =>
    by_cases hn : n.isA .definitionList = true ∧ p = k
    · have hlist := (hf.isA n .definitionList).trans hn.1
      by_cases hk : k' = k
      · simp [change, list?, hn, hlist, hk]
      · have hp : ¬ k = k' := fun h => hk h.symm
        have hafter := hf.after hn.1 k
        simp [change, list?, hn, hk, hp, hafter]
    · rw [change, if_neg hn, list?, list?_cons_of_not hn, list?, ih]
      by_cases hk : k' = k
      · subst hk
        simp [hn]
      · simp only [if_neg hk]

theorem change_comm (hf : KeepsKind f) (hg : KeepsKind g) (h : k ≠ k') (p : Place)
    (ns : List Node) :
    change k f p (change k' g p ns) = change k' g p (change k f p ns) := by
  induction ns generalizing p with
  | nil => rfl
  | cons n rest ih =>
    by_cases hn : n.isA .definitionList = true ∧ p = k
    · have hk' : ¬ p = k' := fun hp => h (hn.2.symm.trans hp)
      have hafter := hf.after hn.1 p
      simp only [change, hn.1, hn.2, h, and_false, and_self, if_true, if_false]
      rw [hn.2] at hafter
      rw [hafter]
    · by_cases hn' : n.isA .definitionList = true ∧ p = k'
      · have hk : ¬ k' = k := fun hp => h hp.symm
        have hafter := hg.after hn'.1 p
        rw [hn'.2] at hafter
        simp only [change, hn'.1, hn'.2, hk, and_false, and_self, if_true, if_false]
        rw [hafter]
      · rw [change, if_neg hn', change, if_neg hn, change, if_neg hn, change, if_neg hn', ih]

end

end RouteDocs.Row
