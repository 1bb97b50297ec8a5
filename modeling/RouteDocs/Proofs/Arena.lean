import Mathlib.Data.List.Nodup
import Mathlib.Data.List.Perm.Subperm
import RouteDocs.Arena

/-!
# Trees in an arena

A tree stands in an arena if each of its elements is in its place and no element
is in it twice. What is done to an arena elsewhere does not reach such a tree:
the places of a tree are its footprint, and a change says at which places it
was made.

Results:
* `Holds.congr`, `ChangedAt.holds`: a tree stays where nothing is changed at its places.
* `Stands.tree?_eq`: the tree that stands in an arena is read back.
* `write_spec`, `copy_spec`, `copyAll_spec`: new trees, in places of their own.
-/
namespace RouteDocs

/-- A tree whose elements carry their places. -/
inductive Placed where
  | text (content : String)
  | element (place : Nat) (name : String) (attributes : Attributes) (children : List Placed)

namespace Placed

def item : Placed → Item
  | text s => .text s
  | element i _ _ _ => .element i

mutual

/-- The tree without its places. -/
def node : Placed → Node
  | text s => .text s
  | element _ name as cs => .element name as (nodes cs)

def nodes : List Placed → List Node
  | [] => []
  | t :: rest => t.node :: nodes rest

end

mutual

def places : Placed → List Nat
  | text _ => []
  | element i _ _ cs => i :: placesAll cs

def placesAll : List Placed → List Nat
  | [] => []
  | t :: rest => t.places ++ placesAll rest

end

theorem nodes_eq_map (ts : List Placed) : nodes ts = ts.map node := by
  induction ts with
  | nil => rfl
  | cons t rest ih => rw [nodes, ih, List.map_cons]

theorem placesAll_eq_flatMap (ts : List Placed) : placesAll ts = ts.flatMap places := by
  induction ts with
  | nil => rfl
  | cons t rest ih => rw [placesAll, ih, List.flatMap_cons]

theorem placesAll_append (ts us : List Placed) :
    placesAll (ts ++ us) = placesAll ts ++ placesAll us := by
  simp only [placesAll_eq_flatMap, List.flatMap_append]

theorem places_sublist {ts : List Placed} {t : Placed} (ht : t ∈ ts) :
    t.places.Sublist (placesAll ts) := by
  rw [placesAll_eq_flatMap, List.flatMap_def]
  exact List.sublist_flatten_of_mem (List.mem_map_of_mem ht)

end Placed

namespace Arena

mutual

/-- Every element of a tree is in its place. -/
def Holds (a : Arena) : Placed → Prop
  | .text _ => True
  | .element i name as cs => a.cell? i = some ⟨name, as, cs.map Placed.item⟩ ∧ a.HoldsAll cs

/-- Every element of trees is in its place. -/
def HoldsAll (a : Arena) : List Placed → Prop
  | [] => True
  | t :: rest => a.Holds t ∧ a.HoldsAll rest

end

theorem holdsAll_iff {a : Arena} {ts : List Placed} : a.HoldsAll ts ↔ ∀ t ∈ ts, a.Holds t := by
  induction ts with
  | nil => simp [HoldsAll]
  | cons t rest ih => rw [HoldsAll, ih, List.forall_mem_cons]

theorem holdsAll_append {a : Arena} {ts us : List Placed} :
    a.HoldsAll (ts ++ us) ↔ a.HoldsAll ts ∧ a.HoldsAll us := by
  simp only [holdsAll_iff, List.forall_mem_append]

mutual

/-- A tree stays where its places hold what they held. -/
theorem Holds.congr {a a' : Arena} : ∀ {t : Placed}, a.Holds t →
    (∀ i ∈ t.places, a'.cell? i = a.cell? i) → a'.Holds t
  | .text _, _, _ => trivial
  | .element i name as cs, h, hsame => by
    rw [Holds] at h ⊢
    rw [Placed.places, List.forall_mem_cons] at hsame
    exact ⟨hsame.1.trans h.1, HoldsAll.congr h.2 hsame.2⟩

theorem HoldsAll.congr {a a' : Arena} : ∀ {ts : List Placed}, a.HoldsAll ts →
    (∀ i ∈ Placed.placesAll ts, a'.cell? i = a.cell? i) → a'.HoldsAll ts
  | [], _, _ => trivial
  | t :: rest, h, hsame => by
    rw [HoldsAll] at h ⊢
    rw [Placed.placesAll, List.forall_mem_append] at hsame
    exact ⟨Holds.congr h.1 hsame.1, HoldsAll.congr h.2 hsame.2⟩

end

theorem lt_size_of_cell? {a : Arena} {i : Nat} {c : Cell} (h : a.cell? i = some c) : i < a.size :=
  (List.getElem?_eq_some_iff.1 h).1

mutual

theorem Holds.lt_size {a : Arena} : ∀ {t : Placed}, a.Holds t → ∀ i ∈ t.places, i < a.size
  | .text _, _ => nofun
  | .element i name as cs, h => by
    rw [Holds] at h
    rw [Placed.places, List.forall_mem_cons]
    exact ⟨lt_size_of_cell? h.1, HoldsAll.lt_size h.2⟩

theorem HoldsAll.lt_size {a : Arena} : ∀ {ts : List Placed}, a.HoldsAll ts →
    ∀ i ∈ Placed.placesAll ts, i < a.size
  | [], _ => nofun
  | t :: rest, h => by
    rw [HoldsAll] at h
    rw [Placed.placesAll, List.forall_mem_append]
    exact ⟨Holds.lt_size h.1, HoldsAll.lt_size h.2⟩

end

/-! ## Changes -/

/-- One arena comes from another by changes at some places and by new elements. -/
structure ChangedAt (ps : List Nat) (a a' : Arena) : Prop where
  size_le : a.size ≤ a'.size
  same : ∀ i < a.size, i ∉ ps → a'.cell? i = a.cell? i

theorem ChangedAt.refl (ps : List Nat) (a : Arena) : ChangedAt ps a a :=
  ⟨Nat.le_refl _, fun _ _ _ => rfl⟩

theorem ChangedAt.mono {ps qs : List Nat} {a a' : Arena} (h : ChangedAt ps a a') (hsub : ps ⊆ qs) :
    ChangedAt qs a a' :=
  ⟨h.size_le, fun i hi hqs => h.same i hi fun hps => hqs (hsub hps)⟩

/-- Changes one after the other: the second ones may also be made to elements that the first
ones brought. -/
theorem ChangedAt.trans {ps qs : List Nat} {a b c : Arena} (h : ChangedAt ps a b)
    (h' : ChangedAt qs b c) (hqs : ∀ i ∈ qs, i ∈ ps ∨ a.size ≤ i) : ChangedAt ps a c := by
  refine ⟨Nat.le_trans h.size_le h'.size_le, fun i hi hps => ?_⟩
  have hnot : i ∉ qs := fun hq => (hqs i hq).elim hps fun hle => absurd hi (Nat.not_lt.2 hle)
  rw [h'.same i (Nat.lt_of_lt_of_le hi h.size_le) hnot, h.same i hi hps]

theorem ChangedAt.holds {ps : List Nat} {a a' : Arena} (h : ChangedAt ps a a') {t : Placed}
    (ht : a.Holds t) (hps : t.places.Disjoint ps) : a'.Holds t :=
  ht.congr fun i hi => h.same i (ht.lt_size i hi) (hps hi)

theorem ChangedAt.holdsAll {ps : List Nat} {a a' : Arena} (h : ChangedAt ps a a')
    {ts : List Placed} (ht : a.HoldsAll ts) (hps : (Placed.placesAll ts).Disjoint ps) :
    a'.HoldsAll ts :=
  ht.congr fun i hi => h.same i (ht.lt_size i hi) (hps hi)

/-! ## Reading -/

/-- A tree stands in an arena: each of its elements is in its place, and none is in it twice. -/
structure Stands (a : Arena) (t : Placed) : Prop where
  holds : a.Holds t
  nodup : t.places.Nodup

theorem Stands.of_mem {a : Arena} {ts : List Placed} (h : a.HoldsAll ts)
    (hn : (Placed.placesAll ts).Nodup) {t : Placed} (ht : t ∈ ts) : a.Stands t :=
  ⟨holdsAll_iff.1 h t ht, hn.sublist (Placed.places_sublist ht)⟩

theorem Stands.length_le {a : Arena} {t : Placed} (h : a.Stands t) : t.places.length ≤ a.size := by
  have hsubset : t.places ⊆ List.range a.size :=
    fun i hi => List.mem_range.2 (h.holds.lt_size i hi)
  simpa using (List.subperm_of_subset h.nodup hsubset).length_le

theorem ChangedAt.stands {ps : List Nat} {a a' : Arena} (h : ChangedAt ps a a') {t : Placed}
    (ht : a.Stands t) (hps : t.places.Disjoint ps) : a'.Stands t :=
  ⟨h.holds ht.holds hps, ht.nodup⟩

theorem mapM_eq_some_map {α β : Type} {f : α → Option β} {g : α → β} {l : List α}
    (h : ∀ x ∈ l, f x = some (g x)) : l.mapM f = some (l.map g) := by
  induction l with
  | nil => rfl
  | cons x rest ih =>
    rw [List.forall_mem_cons] at h
    rw [List.mapM_cons, h.1, ih h.2]
    rfl

theorem read_of_holds {a : Arena} {depth : Nat} {t : Placed} (h : a.Holds t)
    (hdepth : t.places.length ≤ depth) : a.read depth t.item = some t.node := by
  induction depth generalizing t with
  | zero =>
    cases t with
    | text s => rfl
    | element i name as cs => simp [Placed.places] at hdepth
  | succ depth ih =>
    cases t with
    | text s => rfl
    | element i name as cs =>
      rw [Holds] at h
      rw [Placed.places, List.length_cons, Nat.succ_le_succ_iff] at hdepth
      have hchildren : (cs.map Placed.item).mapM (a.read depth) = some (cs.map Placed.node) := by
        rw [List.mapM_map]
        refine mapM_eq_some_map fun c hc => ih (holdsAll_iff.1 h.2 c hc) ?_
        exact Nat.le_trans (Placed.places_sublist hc).length_le hdepth
      rw [Placed.item, read, h.1, Placed.node, Placed.nodes_eq_map]
      simp only [Option.bind_eq_bind, Option.bind_some, hchildren, Option.pure_def]

/-- The tree that stands in an arena is read back. -/
theorem Stands.tree?_eq {a : Arena} {t : Placed} (h : a.Stands t) : a.tree? t.item = some t.node :=
  read_of_holds h.holds h.length_le

theorem trees?_eq {a : Arena} {ts : List Placed} (h : ∀ t ∈ ts, a.Stands t) :
    a.trees? (ts.map Placed.item) = some (ts.map Placed.node) := by
  rw [trees?, List.mapM_map]
  exact mapM_eq_some_map fun t ht => (h t ht).tree?_eq

/-! ## New trees -/

/-- Trees stand in places that were free before. -/
structure New (a a' : Arena) (ts : List Placed) : Prop where
  changed : ChangedAt [] a a'
  holds : a'.HoldsAll ts
  nodup : (Placed.placesAll ts).Nodup
  fresh : ∀ i ∈ Placed.placesAll ts, a.size ≤ i

theorem New.append {a b c : Arena} {ts us : List Placed} (h : New a b ts) (h' : New b c us) :
    New a c (ts ++ us) := by
  have hnone : ∀ i ∈ ([] : List Nat), i ∈ ([] : List Nat) ∨ a.size ≤ i := nofun
  refine ⟨h.changed.trans h'.changed hnone, ?_, ?_, ?_⟩
  · exact holdsAll_append.2 ⟨h'.changed.holdsAll h.holds (List.disjoint_nil_right _), h'.holds⟩
  · rw [Placed.placesAll_append, List.nodup_append]
    refine ⟨h.nodup, h'.nodup, fun i hi j hj => ?_⟩
    exact Nat.ne_of_lt (Nat.lt_of_lt_of_le (h.holds.lt_size i hi) (h'.fresh j hj))
  · rw [Placed.placesAll_append, List.forall_mem_append]
    exact ⟨h.fresh, fun i hi => Nat.le_trans h.changed.size_le (h'.fresh i hi)⟩

theorem New.stands {a a' : Arena} {ts : List Placed} (h : New a a' ts) : ∀ t ∈ ts, a'.Stands t :=
  fun _ ht => .of_mem h.holds h.nodup ht

theorem changedAt_add (a : Arena) (c : Cell) : ChangedAt [] a (a.add c) := by
  refine ⟨by rw [size_add]; exact Nat.le_succ _, fun i hi _ => ?_⟩
  rw [cell?_add, if_neg (Nat.ne_of_lt hi)]

theorem changedAt_setItems (a : Arena) (i : Nat) (items : List Item) :
    ChangedAt [i] a (a.setItems i items) := by
  refine ⟨Nat.le_of_eq (size_setItems a i items).symm, fun j _ hj => ?_⟩
  have hne : i ≠ j := fun h => hj (List.mem_singleton.2 h.symm)
  simp only [cell?_setItems, if_neg hne, Option.map_id']

/-- An element put in front of new trees, as whose parent it comes last. -/
theorem New.element {a b : Arena} {ts : List Placed} (h : New a b ts) (name : String)
    (as : Attributes) :
    New a (b.add ⟨name, as, ts.map Placed.item⟩) [.element b.size name as ts] := by
  have hadd := changedAt_add b ⟨name, as, ts.map Placed.item⟩
  refine ⟨h.changed.trans hadd nofun, ⟨⟨?_, ?_⟩, trivial⟩, ?_, ?_⟩
  · rw [cell?_add, if_pos rfl]
  · exact hadd.holdsAll h.holds (List.disjoint_nil_right _)
  · rw [Placed.placesAll, Placed.places, Placed.placesAll, List.append_nil, List.nodup_cons]
    exact ⟨fun hmem => Nat.lt_irrefl _ (h.holds.lt_size _ hmem), h.nodup⟩
  · rw [Placed.placesAll, Placed.places, Placed.placesAll, List.append_nil, List.forall_mem_cons]
    exact ⟨h.changed.size_le, h.fresh⟩

mutual

theorem write_spec (a : Arena) : ∀ n : Node,
    ∃ t : Placed, t.node = n ∧ (a.write n).1 = t.item ∧ New a (a.write n).2 [t]
  | .text s => ⟨.text s, rfl, rfl, .refl _ a, ⟨trivial, trivial⟩, List.nodup_nil, nofun⟩
  | .element name as cs => by
    obtain ⟨ts, hnodes, hitems, hnew⟩ := writeAll_spec a cs
    have hwrite : a.write (.element name as cs) =
        (.element (a.writeAll cs).2.size,
          (a.writeAll cs).2.add ⟨name, as, (a.writeAll cs).1⟩) := rfl
    refine ⟨.element (a.writeAll cs).2.size name as ts, ?_, by rw [hwrite]; rfl, ?_⟩
    · rw [Placed.node, Placed.nodes_eq_map, hnodes]
    · rw [hwrite, hitems]
      exact hnew.element name as

theorem writeAll_spec (a : Arena) : ∀ ns : List Node,
    ∃ ts : List Placed, ts.map Placed.node = ns ∧ (a.writeAll ns).1 = ts.map Placed.item ∧
      New a (a.writeAll ns).2 ts
  | [] => ⟨[], rfl, rfl, .refl _ a, trivial, List.nodup_nil, nofun⟩
  | n :: rest => by
    obtain ⟨t, hnode, hitem, hnew⟩ := write_spec a n
    obtain ⟨ts, hnodes, hitems, hnews⟩ := writeAll_spec (a.write n).2 rest
    refine ⟨t :: ts, ?_, ?_, ?_⟩
    · rw [List.map_cons, hnode, hnodes]
    · rw [writeAll, List.map_cons, ← hitem, ← hitems]
    · exact hnew.append hnews

end

/-- A copy is a tree like the one copied, made of new elements. -/
theorem copy_spec {a : Arena} {t : Placed} (h : a.Stands t) :
    ∃ u a', a.copy t.item = some (u.item, a') ∧ u.node = t.node ∧ New a a' [u] := by
  obtain ⟨u, hnode, hitem, hnew⟩ := write_spec a t.node
  refine ⟨u, (a.write t.node).2, ?_, hnode, hnew⟩
  rw [copy, h.tree?_eq, ← hitem]
  rfl

theorem copyAll_spec {a : Arena} {ts : List Placed} (h : ∀ t ∈ ts, a.Stands t) :
    ∃ us a', a.copyAll (ts.map Placed.item) = some (us.map Placed.item, a') ∧
      us.map Placed.node = ts.map Placed.node ∧ New a a' us := by
  obtain ⟨us, hnodes, hitems, hnew⟩ := writeAll_spec a (ts.map Placed.node)
  refine ⟨us, (a.writeAll (ts.map Placed.node)).2, ?_, hnodes, hnew⟩
  rw [copyAll, trees?_eq h, ← hitems]
  rfl

end Arena
end RouteDocs
