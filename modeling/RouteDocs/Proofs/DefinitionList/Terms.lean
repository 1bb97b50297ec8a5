import RouteDocs.Proofs.DefinitionList.Decomposition
import RouteDocs.Proofs.Entries

/-!
# The terms of a list

A definition list that was written from a table of terms is the table again:
its terms are those of the table in the order of their texts, and nothing
stands before the first marker.

Results:
* `termPairs_flatMap`: a row of terms written out reads back as that row.
* `lastTerm?_inOrder`: what a written table holds under a text.
* `eq_inOrder_iff`, `inOrder_congr`: a written table is known by its order and its last terms.
-/
namespace RouteDocs.DefinitionList

/-! ## Reading back what was written -/

theorem termPairs_append {ns : List Node} (h : ∀ n ∈ ns, isContent n = true) (ms : List Node) :
    termPairs (ns ++ ms) = termPairs ms := by
  induction ns with
  | nil => rfl
  | cons n rest ih =>
    have hn : marker? n = none := by simpa [isContent] using h n List.mem_cons_self
    rw [List.cons_append, termPairs, hn]
    exact ih fun m hm => h m (List.mem_cons_of_mem _ hm)

theorem marker?_marker (p : TermPair) : marker? p.marker = some (p.attributes, p.label) := by
  simp [marker?, TermPair.marker]

theorem preamble_flatMap (pairs : List TermPair) : preamble (pairs.flatMap TermPair.nodes) = [] := by
  cases pairs with
  | nil => rfl
  | cons p rest => simp [preamble, TermPair.nodes, isContent, marker?_marker]

theorem termPairs_flatMap {pairs : List TermPair}
    (h : ∀ p ∈ pairs, ∀ n ∈ p.definition, isContent n = true) :
    termPairs (pairs.flatMap TermPair.nodes) = pairs := by
  have hpairs := decomposes_flatMap (List.forall_mem_nil _) h
  obtain ⟨-, hparts⟩ := (decomposes_termPairs (pairs.flatMap TermPair.nodes)).unique hpairs
  exact (List.map_inj_right fun _ _ h => parts_injective h).1 hparts

theorem isContent_of_mem_definition {children : List Node} {p : TermPair}
    (hp : p ∈ termPairs children) : ∀ n ∈ p.definition, isContent n = true := by
  intro n hn
  exact isContent_iff.2 ((decomposes_termPairs children).unmarked _ (List.mem_map_of_mem hp) n hn)

/-! ## The last term with a text -/

def lastTerm? (children : List Node) (t : String) : Option TermPair :=
  ((termPairs children).filter fun p => p.text = t).getLast?

theorem get?_byTerm (children : List Node) (t : String) :
    Entries.get? (byTerm children) t = lastTerm? children t := by
  rw [byTerm, Entries.get?_ofPairs, List.filter_map, List.getLast?_map, Option.map_map]
  simp only [lastTerm?, Function.comp_def, Option.map_id_fun', id_eq]

theorem mem_of_lastTerm? {children : List Node} {t : String} {p : TermPair}
    (h : lastTerm? children t = some p) : p ∈ termPairs children ∧ p.text = t := by
  have := List.mem_filter.1 (List.mem_of_getLast? h)
  simpa using this

theorem lastTerm?_eq_none_iff {children : List Node} {t : String} :
    lastTerm? children t = none ↔ ∀ p ∈ termPairs children, p.text ≠ t := by
  simp [lastTerm?]

theorem exists_text_iff {children : List Node} {t : String} :
    (∃ p ∈ termPairs children, p.text = t) ↔ ∃ p, lastTerm? children t = some p := by
  rw [← Option.isSome_iff_exists, ← Option.ne_none_iff_isSome, Ne, lastTerm?_eq_none_iff]
  simp

/-- Terms in the strict order of their texts. -/
def Increasing (pairs : List TermPair) : Prop :=
  pairs.Pairwise fun p q => p.text < q.text

theorem nodup_of_increasing {pairs : List TermPair} (h : Increasing pairs) : pairs.Nodup := by
  refine h.imp ?_
  rintro p q hlt rfl
  exact String.lt_irrefl _ hlt

theorem eq_of_text_eq {pairs : List TermPair} (h : Increasing pairs) {p q : TermPair}
    (hp : p ∈ pairs) (hq : q ∈ pairs) (ht : p.text = q.text) : p = q := by
  have hall : ∀ ⦃x⦄, x ∈ pairs → ∀ ⦃y⦄, y ∈ pairs → x.text = y.text → x = y := by
    refine List.Pairwise.forall_of_forall_of_flip (fun _ _ _ => rfl) (h.imp ?_) (h.imp ?_)
    · exact fun hlt he => absurd (he ▸ hlt) (String.lt_irrefl _)
    · exact fun hlt he => absurd (he ▸ hlt) (String.lt_irrefl _)
  exact hall hp hq ht

theorem lastTerm?_eq_some_iff {children : List Node} (h : Increasing (termPairs children))
    {t : String} {p : TermPair} :
    lastTerm? children t = some p ↔ p ∈ termPairs children ∧ p.text = t := by
  refine ⟨mem_of_lastTerm?, fun ⟨hp, ht⟩ => ?_⟩
  obtain ⟨q, hq⟩ := exists_text_iff.1 ⟨p, hp, ht⟩
  obtain ⟨hqm, hqt⟩ := mem_of_lastTerm? hq
  rw [hq, eq_of_text_eq h hqm hp (hqt.trans ht.symm)]

/-! ## Tables of terms -/

/-- Terms filed under their own texts, each text once, with no marker in a definition. -/
structure WellFiled (terms : Entries String TermPair) : Prop where
  nodup : (Entries.keys terms).Nodup
  text_eq : ∀ t p, (t, p) ∈ terms → p.text = t
  content : ∀ t p, (t, p) ∈ terms → ∀ n ∈ p.definition, isContent n = true

theorem wellFiled_byTerm (children : List Node) : WellFiled (byTerm children) := by
  have hn : (Entries.keys (byTerm children)).Nodup := Entries.nodup_ofPairs _
  refine ⟨hn, fun t p h => ?_, fun t p h => ?_⟩
  · exact (mem_of_lastTerm? (get?_byTerm children t ▸ Entries.get?_of_mem hn h)).2
  · exact isContent_of_mem_definition (mem_termPairs_of_byTerm (Entries.get?_of_mem hn h))

/-- The terms of a table in the order of their texts. -/
def ordered (terms : Entries String TermPair) : List TermPair :=
  (terms.mergeSort fun a b => a.1 ≤ b.1).map Prod.snd

theorem inOrder_eq_flatMap (terms : Entries String TermPair) :
    inOrder terms = (ordered terms).flatMap TermPair.nodes := by
  rw [inOrder, ordered, List.flatMap_map]

theorem mem_ordered {terms : Entries String TermPair} (h : WellFiled terms) {p : TermPair} :
    p ∈ ordered terms ↔ Entries.get? terms p.text = some p := by
  rw [← Entries.mem_iff_get? h.nodup, ordered, List.mem_map]
  constructor
  · rintro ⟨⟨t, q⟩, hm, rfl⟩
    have hq := List.mem_mergeSort.1 hm
    rwa [h.text_eq t q hq]
  · exact fun hm => ⟨_, List.mem_mergeSort.2 hm, rfl⟩

theorem increasing_ordered {terms : Entries String TermPair} (h : WellFiled terms) :
    Increasing (ordered terms) := by
  have hle := Entries.pairwise_mergeSort terms
  have hne : (terms.mergeSort fun a b => a.1 ≤ b.1).Pairwise fun a b => a.1 ≠ b.1 :=
    List.pairwise_map.1 (((List.mergeSort_perm _ _).symm.map Prod.fst).nodup h.nodup)
  refine List.pairwise_map.2 ((hle.and hne).imp_of_mem ?_)
  rintro ⟨t, p⟩ ⟨u, q⟩ hp hq ⟨hle, hne⟩
  rw [h.text_eq t p (List.mem_mergeSort.1 hp), h.text_eq u q (List.mem_mergeSort.1 hq)]
  exact String.not_le.1 fun hge => hne (String.le_antisymm hle hge)

theorem preamble_inOrder (terms : Entries String TermPair) : preamble (inOrder terms) = [] := by
  rw [inOrder_eq_flatMap, preamble_flatMap]

theorem termPairs_inOrder {terms : Entries String TermPair} (h : WellFiled terms) :
    termPairs (inOrder terms) = ordered terms := by
  rw [inOrder_eq_flatMap, termPairs_flatMap]
  intro p hp
  exact h.content _ p (Entries.mem_of_get? ((mem_ordered h).1 hp))

/-- A written table holds what the table holds. -/
theorem lastTerm?_inOrder {terms : Entries String TermPair} (h : WellFiled terms) (t : String) :
    lastTerm? (inOrder terms) t = Entries.get? terms t := by
  have hinc := increasing_ordered h
  rw [← termPairs_inOrder h] at hinc
  ext p
  rw [lastTerm?_eq_some_iff hinc, termPairs_inOrder h, mem_ordered h]
  constructor
  · rintro ⟨hp, rfl⟩
    exact hp
  · intro hp
    have ht : p.text = t := h.text_eq t p (Entries.mem_of_get? hp)
    exact ⟨ht.symm ▸ hp, ht⟩

/-- A written table is known by three things: nothing stands before its first marker, its
terms increase, and it holds what the table holds. -/
theorem eq_inOrder_iff {terms : Entries String TermPair} (h : WellFiled terms)
    {children : List Node} :
    children = inOrder terms ↔ preamble children = [] ∧ Increasing (termPairs children) ∧
      ∀ t, lastTerm? children t = Entries.get? terms t := by
  constructor
  · rintro rfl
    rw [termPairs_inOrder h]
    exact ⟨preamble_inOrder terms, increasing_ordered h, lastTerm?_inOrder h⟩
  · rintro ⟨hpre, hinc, hget⟩
    have hmem : ∀ p, p ∈ termPairs children ↔ p ∈ ordered terms := by
      intro p
      rw [mem_ordered h, ← hget, lastTerm?_eq_some_iff hinc]
      simp
    have heq : termPairs children = ordered terms := by
      have hasymm : ∀ p q : TermPair, p ∈ termPairs children → q ∈ ordered terms →
          p.text < q.text → q.text < p.text → p = q :=
        fun _ _ _ _ hpq hqp => absurd (String.lt_trans hpq hqp) (String.lt_irrefl _)
      refine List.Perm.eq_of_pairwise hasymm hinc (increasing_ordered h) ?_
      exact (List.perm_ext_iff_of_nodup (nodup_of_increasing hinc)
        (nodup_of_increasing (increasing_ordered h))).2 hmem
    rw [termPairs_decompose children, hpre, heq, inOrder_eq_flatMap, List.nil_append]

/-- Two tables that hold the same under each text are written alike. -/
theorem inOrder_congr {terms terms' : Entries String TermPair}
    (hn : (Entries.keys terms).Nodup) (h' : WellFiled terms')
    (hget : ∀ t, Entries.get? terms t = Entries.get? terms' t) : inOrder terms = inOrder terms' := by
  have hmem : ∀ t p, (t, p) ∈ terms → (t, p) ∈ terms' := fun t p hp =>
    Entries.mem_of_get? ((hget t).symm.trans (Entries.get?_of_mem hn hp))
  have h : WellFiled terms := ⟨hn, fun t p hp => h'.text_eq t p (hmem t p hp),
    fun t p hp => h'.content t p (hmem t p hp)⟩
  refine (eq_inOrder_iff h').2 ⟨preamble_inOrder terms, ?_, fun t => ?_⟩
  · rw [termPairs_inOrder h]
    exact increasing_ordered h
  · rw [lastTerm?_inOrder h, hget]

end RouteDocs.DefinitionList
