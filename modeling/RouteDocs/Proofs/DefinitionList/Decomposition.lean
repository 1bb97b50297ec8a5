import Mathlib.Data.List.ModifyLast
import RouteDocs.DefinitionList
import RouteDocs.DefinitionList.InPlace

/-!
# A list taken apart

A row in which some members are marks is what stands before the first mark,
followed by segments, each a mark and what comes after it up to the next mark. In
the children of a definition list the marks are the markers of its terms, and the
segments are the terms.

Segments can be gathered by going through the row once: a mark opens a segment, and
what is no mark goes to the segment opened last. Whichever way the row was put
together, gathering finds the segments that it was put together from, so a row is
taken apart in one way only.

Results:
* `Decomposes.gathered`, `Decomposes.unique`: the segments of a row are those gathered from it.
* `termPairs_concat`: the terms of a list that is given one more child.
* `termPairs_lossless`: the terms of a list are what it is put together from, and a list put
  together from terms has these terms.
* `Arena.decomposes_terms_iff`: the items that an element holds, taken apart into the same items.
-/
namespace RouteDocs.DefinitionList

section Segments

variable {α : Type} {mark : α → Bool} {row front ns : List α} {segments : List (α × List α)}

/-- A row is taken apart into what stands before the first mark and the segments after it. -/
structure Decomposes (mark : α → Bool) (row front : List α) (segments : List (α × List α)) :
    Prop where
  row_eq : row = front ++ segments.flatMap fun s => s.1 :: s.2
  before : ∀ x ∈ front, mark x = false
  marked : ∀ s ∈ segments, mark s.1 = true
  unmarked : ∀ s ∈ segments, ∀ x ∈ s.2, mark x = false

/-- The segments of a row that goes on with one more member. -/
def gather (mark : α → Bool) (segments : List (α × List α)) (x : α) : List (α × List α) :=
  if mark x then segments ++ [(x, [])] else segments.modifyLast fun s => (s.1, s.2 ++ [x])

theorem gather_mark {m : α} (h : mark m = true) : gather mark segments m = segments ++ [(m, [])] := by
  unfold gather
  exact if_pos h

theorem gather_nil {x : α} (h : mark x = false) : gather mark [] x = [] := by
  unfold gather
  rw [h]
  rfl

theorem gather_last {x : α} (h : mark x = false) (m : α) (ns : List α) :
    gather mark (segments ++ [(m, ns)]) x = segments ++ [(m, ns ++ [x])] := by
  unfold gather
  rw [h, if_neg Bool.false_ne_true, List.modifyLast_concat]

/-- Before the first mark nothing is gathered. -/
theorem foldl_gather_before (h : ∀ x ∈ front, mark x = false) : front.foldl (gather mark) [] = [] := by
  induction front with
  | nil => rfl
  | cons x rest ih =>
    rw [List.foldl_cons, gather_nil (h x List.mem_cons_self)]
    exact ih fun y hy => h y (List.mem_cons_of_mem _ hy)

theorem foldl_gather_open (h : ∀ x ∈ ns, mark x = false) (m : α) (opened : List α) :
    ns.foldl (gather mark) (segments ++ [(m, opened)]) = segments ++ [(m, opened ++ ns)] := by
  induction ns generalizing opened with
  | nil => rw [List.append_nil]; rfl
  | cons x rest ih =>
    rw [List.foldl_cons, gather_last (h x List.mem_cons_self),
      ih fun y hy => h y (List.mem_cons_of_mem _ hy)]
    simp only [List.append_assoc, List.singleton_append]

theorem foldl_gather_segments (hmark : ∀ s ∈ segments, mark s.1 = true)
    (hrest : ∀ s ∈ segments, ∀ x ∈ s.2, mark x = false) (gathered : List (α × List α)) :
    (segments.flatMap fun s => s.1 :: s.2).foldl (gather mark) gathered = gathered ++ segments := by
  induction segments generalizing gathered with
  | nil => rw [List.append_nil]; rfl
  | cons s rest ih =>
    obtain ⟨m, ns⟩ := s
    have hm := hmark (m, ns) List.mem_cons_self
    have hns := hrest (m, ns) List.mem_cons_self
    rw [List.flatMap_cons, List.cons_append, List.foldl_cons, List.foldl_append, gather_mark hm,
      foldl_gather_open hns, List.nil_append]
    rw [ih (fun t ht => hmark t (List.mem_cons_of_mem _ ht))
      (fun t ht => hrest t (List.mem_cons_of_mem _ ht))]
    simp only [List.append_assoc, List.singleton_append]

namespace Decomposes

theorem nil : Decomposes mark [] [] [] where
  row_eq := rfl
  before := by simp
  marked := by simp
  unmarked := by simp

theorem cons_mark (h : Decomposes mark row front segments) {m : α} (hm : mark m = true) :
    Decomposes mark (m :: row) [] ((m, front) :: segments) where
  row_eq := by rw [h.row_eq]; rfl
  before := by simp
  marked := by simpa [hm] using h.marked
  unmarked := by simpa using ⟨h.before, fun _ _ => h.unmarked _⟩

theorem cons_other (h : Decomposes mark row front segments) {x : α} (hx : mark x = false) :
    Decomposes mark (x :: row) (x :: front) segments where
  row_eq := by rw [h.row_eq]; rfl
  before := by simpa [hx] using h.before
  marked := h.marked
  unmarked := h.unmarked

/-- The segments of a row are found by going through it once. -/
theorem gathered (h : Decomposes mark row front segments) :
    row.foldl (gather mark) [] = segments := by
  rw [h.row_eq, List.foldl_append, foldl_gather_before h.before,
    foldl_gather_segments h.marked h.unmarked, List.nil_append]

/-- A row is taken apart in one way only. -/
theorem unique (h : Decomposes mark row front segments) {front' : List α}
    {segments' : List (α × List α)} (h' : Decomposes mark row front' segments') :
    front = front' ∧ segments = segments' := by
  have hsegments : segments = segments' := h.gathered.symm.trans h'.gathered
  subst hsegments
  exact ⟨List.append_cancel_right (h.row_eq.symm.trans h'.row_eq), rfl⟩

end Decomposes

end Segments

/-! ## The terms of a list -/

theorem isContent_iff {n : Node} : isContent n = true ↔ n.isA .term = false := by
  cases n with
  | text s => exact iff_of_true rfl rfl
  | element name as cs =>
    rw [Node.isA, Node.kind?, beq_eq_false_iff_ne, Ne, Kind.ofName?_eq_some_iff, isContent, marker?]
    split <;> simp [*]

def parts (p : TermPair) : Node × List Node :=
  (p.marker, p.definition)

theorem isA_marker (p : TermPair) : p.marker.isA .term = true :=
  Node.isA_iff.2 ⟨p.attributes, p.label, rfl⟩

theorem decomposes_termPairs (children : List Node) :
    Decomposes (Node.isA .term) children (preamble children) ((termPairs children).map parts) := by
  induction children with
  | nil => exact .nil
  | cons n rest ih =>
    unfold preamble termPairs
    cases h : marker? n with
    | some m =>
      obtain ⟨as, cs⟩ := m
      obtain rfl := marker?_eq_some h
      rw [List.takeWhile_cons_of_neg (by simp [isContent, h])]
      exact ih.cons_mark (isA_marker ⟨as, cs, []⟩)
    | none =>
      have hcontent : isContent n = true := by simp [isContent, h]
      rw [List.takeWhile_cons_of_pos hcontent]
      exact ih.cons_other (isContent_iff.1 hcontent)

theorem parts_injective : Function.Injective parts := by
  rintro ⟨as, cs, definition⟩ ⟨as', cs', definition'⟩ h
  simpa [parts, TermPair.marker, and_assoc] using h

theorem decomposes_flatMap {front : List Node} {pairs : List TermPair}
    (hfront : ∀ n ∈ front, isContent n = true)
    (h : ∀ p ∈ pairs, ∀ n ∈ p.definition, isContent n = true) :
    Decomposes (Node.isA .term) (front ++ pairs.flatMap TermPair.nodes) front (pairs.map parts) where
  row_eq := by rw [List.flatMap_map]; rfl
  before n hn := isContent_iff.1 (hfront n hn)
  marked := by
    intro s hs
    obtain ⟨p, -, rfl⟩ := List.mem_map.1 hs
    exact isA_marker p
  unmarked := by
    intro s hs n hn
    obtain ⟨p, hp, rfl⟩ := List.mem_map.1 hs
    exact isContent_iff.1 (h p hp n hn)

/-- One more child: a marker begins a term, anything else belongs to the last term, and to none if
there is no term yet. -/
theorem termPairs_concat (children : List Node) (n : Node) :
    (termPairs (children ++ [n])).map parts =
      gather (Node.isA .term) ((termPairs children).map parts) n := by
  rw [← (decomposes_termPairs (children ++ [n])).gathered, List.foldl_append,
    (decomposes_termPairs children).gathered]
  rfl

/-- A definition list is what stands before its first term marker, followed by its terms, each a
marker and nodes of which none is a marker. A list put together from such a beginning and such terms
has these terms. -/
theorem termPairs_lossless (list : Node) :
    (∃ front, Decomposes (Node.isA .term) list.children front
      ((termPairs list.children).map parts)) ∧
    ∀ front terms, Decomposes (Node.isA .term) list.children front terms →
      (termPairs list.children).map parts = terms := by
  have hparts := decomposes_termPairs list.children
  refine ⟨⟨preamble list.children, hparts⟩, fun front terms h => ?_⟩
  obtain ⟨-, hterms⟩ := hparts.unique h
  exact hterms

/-- A list that begins with a stray text and in which one term has a definition of two nodes and
another has none. -/
theorem termPairs_lossless_of_stray :
    let size := Node.element "item-text" [] [.text "size"]
    let colour := Node.element "item-text" [] [.text "colour"]
    let unit := Node.element "I" [] [.text "bytes"]
    let list := Node.element "over-text" []
      [.text "stray", size, .text "In ", unit, colour]
    Decomposes (Node.isA .term) list.children [.text "stray"]
        [(size, [.text "In ", unit]), (colour, [])] ∧
      (termPairs list.children).map parts = [(size, [.text "In ", unit]), (colour, [])] := by
  intro size colour unit list
  have h : Decomposes (Node.isA .term) list.children [.text "stray"]
      [(size, [.text "In ", unit]), (colour, [])] := by
    refine ⟨rfl, ?_, ?_, ?_⟩ <;> decide
  exact ⟨h, (termPairs_lossless list).2 _ _ h⟩

end RouteDocs.DefinitionList

/-! ## The terms among items -/

namespace RouteDocs.Arena

open DefinitionList (Decomposes)

variable (a : Arena)

/-- The item of a term's marker and those of its definition. -/
def Term.parts (p : Term) : Item × List Item :=
  (p.marker, p.definition)

theorem decomposes_terms (items : List Item) :
    Decomposes (a.isA .term) items (items.takeWhile fun item => !a.isA .term item)
      ((a.terms items).map Term.parts) := by
  induction items with
  | nil => exact .nil
  | cons item rest ih =>
    unfold terms
    cases h : a.isA .term item with
    | true =>
      rw [List.takeWhile_cons_of_neg (by simp [h]), if_pos rfl]
      exact ih.cons_mark h
    | false =>
      rw [List.takeWhile_cons_of_pos (by simp [h]), if_neg Bool.false_ne_true]
      exact ih.cons_other h

/-- The items that an element holds are those before its first term marker, followed by its terms,
and nothing else that they could be put together from. -/
theorem decomposes_terms_iff (items : List Item) {front : List Item} {terms : List (Item × List Item)} :
    Decomposes (a.isA .term) items front terms ↔
      front = items.takeWhile (fun item => !a.isA .term item) ∧
        terms = (a.terms items).map Term.parts := by
  constructor
  · intro h
    exact h.unique (a.decomposes_terms items)
  · rintro ⟨rfl, rfl⟩
    exact a.decomposes_terms items

end RouteDocs.Arena
