import Mathlib.Data.List.Lattice
import Mathlib.Data.List.Pairwise
import RouteDocs.DefinitionList.InPlace
import RouteDocs.Proofs.Arena
import RouteDocs.Proofs.DefinitionList.Union

/-!
# Terms in their places

What the merge in place reads of an arena, told by the trees that stand there:
the terms of a list, their texts, the table that they are filed in and the first
list of a definition.

Results:
* `terms_map_item`, `termPairs_map_node`: the terms of a list, as items and as values.
* `byTerm_spec`: the table of a list.
* `placedList_cases`: the first list of a definition, or none.
-/
namespace RouteDocs

/-- A term with the places of its elements. -/
structure PlacedTerm where
  place : Nat
  attributes : Attributes
  label : List Placed
  definition : List Placed

namespace PlacedTerm

def marker (p : PlacedTerm) : Placed :=
  .element p.place Kind.term.name p.attributes p.label

def trees (p : PlacedTerm) : List Placed :=
  p.marker :: p.definition

def term (p : PlacedTerm) : Arena.Term :=
  ⟨p.marker.item, p.definition.map Placed.item⟩

/-- The term as a value. -/
def pair (p : PlacedTerm) : TermPair :=
  ⟨p.attributes, p.label.map Placed.node, p.definition.map Placed.node⟩

def places (p : PlacedTerm) : List Nat :=
  Placed.placesAll p.trees

theorem node_marker (p : PlacedTerm) : p.marker.node = p.pair.marker := by
  rw [marker, Placed.node, Placed.nodes_eq_map]
  rfl

theorem map_item_trees (p : PlacedTerm) : p.trees.map Placed.item = p.term.items := rfl

theorem map_node_trees (p : PlacedTerm) : p.trees.map Placed.node = p.pair.nodes := by
  rw [trees, List.map_cons, node_marker]
  rfl

end PlacedTerm

namespace Placed

def isA (k : Kind) (t : Placed) : Bool :=
  t.node.isA k

def terms : List Placed → List PlacedTerm
  | [] => []
  | .text _ :: rest => terms rest
  | .element i name as cs :: rest =>
    if name = Kind.term.name then ⟨i, as, cs, rest.takeWhile fun t => !t.isA .term⟩ :: terms rest
    else terms rest

end Placed

namespace Arena

variable {a : Arena}

theorem isA_item {t : Placed} (h : a.Holds t) (k : Kind) : a.isA k t.item = t.isA k := by
  cases t with
  | text s => rfl
  | element i name as cs =>
    rw [Holds] at h
    rw [Placed.item, isA, h.1]
    rfl

theorem isA_element (i : Nat) (name : String) (as : Attributes) (cs : List Placed) (k : Kind) :
    (Placed.element i name as cs).isA k = true ↔ name = k.name := by
  rw [Placed.isA, Placed.node, Node.isA_iff]
  simp

theorem isContent_node (t : Placed) : DefinitionList.isContent t.node = !t.isA .term := by
  cases t with
  | text s => rfl
  | element i name as cs =>
    have hkind := isA_element i name as cs .term
    rw [DefinitionList.isContent, Placed.node, DefinitionList.marker?]
    by_cases h : name = Kind.term.name
    · rw [if_pos h, hkind.2 h]
      rfl
    · rw [if_neg h, Bool.eq_false_iff.2 fun hterm => h (hkind.1 hterm)]
      rfl

theorem termPairs_map_node (ts : List Placed) :
    DefinitionList.termPairs (ts.map Placed.node) = (Placed.terms ts).map PlacedTerm.pair := by
  induction ts with
  | nil => rfl
  | cons t rest ih =>
    cases t with
    | text s => exact ih
    | element i name as cs =>
      rw [List.map_cons, Placed.node, DefinitionList.termPairs, DefinitionList.marker?, Placed.terms]
      by_cases h : name = Kind.term.name
      · simp only [if_pos h, ih, List.map_cons, PlacedTerm.pair, Placed.nodes_eq_map,
          List.takeWhile_map, Function.comp_def, isContent_node]
      · simp only [if_neg h, ih]

theorem takeWhile_map_item {ts : List Placed} (h : a.HoldsAll ts) :
    (ts.map Placed.item).takeWhile (fun item => !a.isA .term item) =
      (ts.takeWhile fun t => !t.isA .term).map Placed.item := by
  induction ts with
  | nil => rfl
  | cons t rest ih =>
    rw [HoldsAll] at h
    rw [List.map_cons, List.takeWhile_cons, List.takeWhile_cons, isA_item h.1, ih h.2]
    cases t.isA .term <;> rfl

theorem terms_map_item {ts : List Placed} (h : a.HoldsAll ts) :
    a.terms (ts.map Placed.item) = (Placed.terms ts).map PlacedTerm.term := by
  induction ts with
  | nil => rfl
  | cons t rest ih =>
    rw [HoldsAll] at h
    cases t with
    | text s => exact ih h.2
    | element i name as cs =>
      have hkind := isA_element i name as cs .term
      rw [List.map_cons, terms, isA_item h.1, ih h.2, takeWhile_map_item h.2, Placed.terms]
      by_cases hn : name = Kind.term.name
      · rw [if_pos (hkind.2 hn), if_pos hn]
        rfl
      · rw [if_neg fun hterm => hn (hkind.1 hterm), if_neg hn]

/-! ## The places of terms -/

/-- What stands before the first marker, then the terms. -/
theorem terms_decompose (ts : List Placed) :
    ts = (ts.takeWhile fun t => !t.isA .term) ++ (Placed.terms ts).flatMap PlacedTerm.trees := by
  induction ts with
  | nil => rfl
  | cons t rest ih =>
    cases t with
    | text s => exact congrArg (Placed.text s :: ·) ih
    | element i name as cs =>
      have hkind := isA_element i name as cs .term
      rw [Placed.terms, List.takeWhile_cons]
      by_cases h : name = Kind.term.name
      · rw [hkind.2 h, if_pos h, List.flatMap_cons, PlacedTerm.trees, List.cons_append, ← ih,
          PlacedTerm.marker, h]
        rfl
      · rw [Bool.eq_false_iff.2 fun hterm => h (hkind.1 hterm), if_neg h]
        exact congrArg (Placed.element i name as cs :: ·) ih

structure StandsTerm (a : Arena) (p : PlacedTerm) : Prop where
  holds : a.HoldsAll p.trees
  nodup : p.places.Nodup

theorem StandsTerm.stands {p : PlacedTerm} (h : a.StandsTerm p) : ∀ t ∈ p.trees, a.Stands t :=
  fun _ ht => .of_mem h.holds h.nodup ht

theorem ChangedAt.standsTerm {ps : List Nat} {a' : Arena} (h : ChangedAt ps a a') {p : PlacedTerm}
    (hp : a.StandsTerm p) (hps : p.places.Disjoint ps) : a'.StandsTerm p :=
  ⟨h.holdsAll hp.holds hps, hp.nodup⟩

section
variable {ts : List Placed}

theorem sublist_terms (ts : List Placed) :
    ((Placed.terms ts).flatMap PlacedTerm.trees).Sublist ts := by
  conv => rhs; rw [terms_decompose ts]
  exact List.sublist_append_right _ _

theorem places_terms (ts : List Placed) :
    ((Placed.terms ts).flatMap PlacedTerm.places).Sublist (Placed.placesAll ts) := by
  have hplaces : (Placed.terms ts).flatMap PlacedTerm.places =
      Placed.placesAll ((Placed.terms ts).flatMap PlacedTerm.trees) := by
    rw [Placed.placesAll_eq_flatMap, List.flatMap_assoc]
    exact List.flatMap_congr fun p _ => Placed.placesAll_eq_flatMap p.trees
  conv => rhs; rw [terms_decompose ts]
  rw [hplaces, Placed.placesAll_append]
  exact List.sublist_append_right _ _

theorem places_of_mem_terms {p : PlacedTerm} (hp : p ∈ Placed.terms ts) :
    p.places.Sublist (Placed.placesAll ts) := by
  refine List.Sublist.trans ?_ (places_terms ts)
  rw [List.flatMap_def]
  exact List.sublist_flatten_of_mem (List.mem_map_of_mem hp)

theorem standsTerm_of_mem_terms (h : a.HoldsAll ts) (hn : (Placed.placesAll ts).Nodup)
    {p : PlacedTerm} (hp : p ∈ Placed.terms ts) : a.StandsTerm p := by
  refine ⟨holdsAll_iff.2 fun t ht => ?_, ?_⟩
  · exact holdsAll_iff.1 h t ((sublist_terms ts).subset (List.mem_flatMap.2 ⟨p, hp, ht⟩))
  · exact (List.nodup_flatMap.1 (hn.sublist (places_terms ts))).1 p hp

/-- Different terms of a list have no element in common. -/
theorem disjoint_of_mem_terms (hn : (Placed.placesAll ts).Nodup) {p q : PlacedTerm}
    (hp : p ∈ Placed.terms ts) (hq : q ∈ Placed.terms ts) (hne : p ≠ q) :
    p.places.Disjoint q.places := by
  have hsymm : Std.Symm (Function.onFun List.Disjoint PlacedTerm.places) :=
    ⟨fun _ _ h => List.Disjoint.symm h⟩
  exact (List.nodup_flatMap.1 (hn.sublist (places_terms ts))).2.forall hp hq hne

end

/-! ## The table of a list -/

def placedTable (ts : List Placed) : Entries String PlacedTerm :=
  Entries.ofPairs ((Placed.terms ts).map fun p => (p.pair.text, p))

def asTerms (table : Entries String PlacedTerm) : Entries String Term :=
  table.map fun (t, p) => (t, p.term)

def asPairs (table : Entries String PlacedTerm) : Entries String TermPair :=
  table.map fun (t, p) => (t, p.pair)

theorem text?_term {p : PlacedTerm} (h : a.StandsTerm p) : a.text? p.term = some p.pair.text := by
  have hmarker : a.Stands p.marker := h.stands _ List.mem_cons_self
  rw [text?, PlacedTerm.term, hmarker.tree?_eq, Option.map_some, PlacedTerm.node_marker]
  rfl

theorem byTerm_spec {i : Nat} {name : String} {as : Attributes} {ts : List Placed}
    (h : a.Stands (.element i name as ts)) : a.byTerm i = some (asTerms (placedTable ts)) := by
  obtain ⟨hholds, hnodup⟩ := h
  rw [Holds] at hholds
  rw [Placed.places, List.nodup_cons] at hnodup
  have hpairs : ((Placed.terms ts).map PlacedTerm.term).mapM
      (fun p => (a.text? p).map fun t => (t, p)) =
      some ((Placed.terms ts).map fun p => (p.pair.text, p.term)) := by
    rw [List.mapM_map]
    refine mapM_eq_some_map fun p hp => ?_
    rw [Function.comp_apply, text?_term (standsTerm_of_mem_terms hholds.2 hnodup.2 hp)]
    rfl
  rw [byTerm, hholds.1]
  simp only [Option.bind_eq_bind, Option.bind_some, terms_map_item hholds.2, hpairs,
    Option.pure_def, Option.some.injEq]
  rw [asTerms, placedTable, ← Entries.ofPairs_map, List.map_map]
  rfl

theorem asPairs_placedTable (ts : List Placed) :
    asPairs (placedTable ts) = DefinitionList.byTerm (ts.map Placed.node) := by
  rw [asPairs, placedTable, ← Entries.ofPairs_map, List.map_map, DefinitionList.byTerm,
    termPairs_map_node, List.map_map]
  rfl

theorem mem_terms_of_get? {ts : List Placed} {t : String} {p : PlacedTerm}
    (h : Entries.get? (placedTable ts) t = some p) : p ∈ Placed.terms ts ∧ p.pair.text = t := by
  rw [placedTable, Entries.get?_ofPairs, List.filter_map, List.getLast?_map, Option.map_map] at h
  obtain ⟨q, hq, rfl⟩ := Option.map_eq_some_iff.1 h
  simpa using List.mem_of_getLast? hq

/-! ## The first list of a definition -/

/-- Trees split at the first definition list among them, which is also the first of the items and of
the values. -/
structure PlacedListAt (a : Arena) (before : List Placed) (list : Placed) (i : Nat)
    (after ts : List Placed) : Prop where
  split : ts = before ++ list :: after
  item : list.item = .element i
  first : a.firstList? (ts.map Placed.item) = some i
  value : DefinitionList.FirstListAt (before.map Placed.node) list.node (after.map Placed.node)
    (ts.map Placed.node)

/-- Trees have a first definition list, or none as trees, as items and as values. -/
theorem placedList_cases {ts : List Placed} (h : a.HoldsAll ts) :
    (a.firstList? (ts.map Placed.item) = none ∧
      DefinitionList.firstList? (ts.map Placed.node) = none) ∨
    ∃ before list i after, a.PlacedListAt before list i after ts := by
  induction ts with
  | nil => exact .inl ⟨rfl, rfl⟩
  | cons t rest ih =>
    rw [HoldsAll] at h
    cases hlist : t.isA .definitionList with
    | true =>
      cases t with
      | text s => cases hlist
      | element i name as cs =>
        refine .inr ⟨[], _, i, rest, rfl, rfl, ?_, ⟨rfl, hlist, nofun⟩⟩
        have hitem : a.isA .definitionList (.element i) = true := (isA_item h.1 _).trans hlist
        rw [List.map_cons, Placed.item, firstList?, if_pos hitem]
    | false =>
      have hitem : a.firstList? ((t :: rest).map Placed.item) =
          a.firstList? (rest.map Placed.item) := by
        cases t with
        | text s => rfl
        | element i name as cs =>
          have hnot : a.isA .definitionList (.element i) = false := (isA_item h.1 _).trans hlist
          rw [List.map_cons, Placed.item, firstList?, if_neg (Bool.eq_false_iff.1 hnot)]
      have hnode : DefinitionList.firstList? ((t :: rest).map Placed.node) =
          DefinitionList.firstList? (rest.map Placed.node) := by
        have hnot : t.node.isA .definitionList = false := hlist
        rw [List.map_cons, DefinitionList.firstList?, if_neg (Bool.eq_false_iff.1 hnot)]
      rcases ih h.2 with ⟨hitems, hnodes⟩ | ⟨before, list, i, after, hat⟩
      · exact .inl ⟨hitem.trans hitems, hnode.trans hnodes⟩
      · obtain ⟨hnodes, hislist, hbefore⟩ := hat.value
        refine .inr ⟨t :: before, list, i, after, by rw [hat.split]; rfl, hat.item,
          hitem.trans hat.first, by rw [List.map_cons, hnodes]; rfl, hislist, ?_⟩
        exact List.forall_mem_cons.2 ⟨hlist, hbefore⟩

end Arena
end RouteDocs
