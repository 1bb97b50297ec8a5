import RouteDocs.Node

/-!
# Definition lists

A definition list is a row of term markers, each followed by the nodes of its
definition; what stands before the first marker belongs to no term. `merge`
adds to one list the terms of another that it lacks. Where both define a term,
the receiving list keeps its own definition, except that the first list nested
in it takes in the first list nested in the other's.

Results:
* `termPairs_decompose`: the children of a list are what stands before the first
  marker, followed by its pairs, each written as marker and definition.
* `merge_eq`: one unfolding of the merge.
-/
namespace RouteDocs

/-- A term of a definition list: the attributes and content of its marker, and the nodes of its
definition. Mirrors `TermPair`. -/
structure TermPair where
  attributes : Attributes
  label : List Node
  definition : List Node

namespace TermPair

def text (p : TermPair) : String :=
  Node.flattenAll p.label

def marker (p : TermPair) : Node :=
  .element Kind.term.name p.attributes p.label

def nodes (p : TermPair) : List Node :=
  p.marker :: p.definition

end TermPair

namespace DefinitionList

/-- The attributes and content of a term marker. -/
def marker? : Node → Option (Attributes × List Node)
  | .text _ => none
  | .element name as cs => if name = Kind.term.name then some (as, cs) else none

/-- A node that is no term marker. -/
def isContent (n : Node) : Bool :=
  (marker? n).isNone

/-- The terms among the children of a definition list. Mirrors `tag_pairs`. -/
def termPairs : List Node → List TermPair
  | [] => []
  | n :: rest =>
    match marker? n with
    | some (as, cs) => ⟨as, cs, rest.takeWhile isContent⟩ :: termPairs rest
    | none => termPairs rest

/-- What stands before the first term marker. -/
def preamble (children : List Node) : List Node :=
  children.takeWhile isContent

theorem marker?_eq_some {n : Node} {as : Attributes} {cs : List Node}
    (h : marker? n = some (as, cs)) : n = .element Kind.term.name as cs := by
  cases n with
  | text s => simp [marker?] at h
  | element name as' cs' =>
    by_cases hn : name = Kind.term.name
    · simp only [marker?, hn, if_pos, Option.some.injEq, Prod.mk.injEq] at h
      simp [hn, h.1, h.2]
    · simp [marker?, hn] at h

theorem termPairs_decompose (children : List Node) :
    children = preamble children ++ (termPairs children).flatMap TermPair.nodes := by
  induction children with
  | nil => rfl
  | cons n rest ih =>
    cases h : marker? n with
    | none =>
      have hc : isContent n = true := by simp [isContent, h]
      simpa [preamble, termPairs, h, hc] using ih
    | some m =>
      obtain ⟨as, cs⟩ := m
      have hc : isContent n = false := by simp [isContent, h]
      have hn := marker?_eq_some h
      simpa [preamble, termPairs, h, hc, TermPair.nodes, TermPair.marker, ← hn] using ih

theorem mem_of_mem_nodes {children : List Node} {p : TermPair} (hp : p ∈ termPairs children)
    {n : Node} (hn : n ∈ p.nodes) : n ∈ children := by
  rw [termPairs_decompose children]
  exact List.mem_append_right _ (List.mem_flatMap.2 ⟨p, hp, hn⟩)

theorem mem_of_mem_definition {children : List Node} {p : TermPair}
    (hp : p ∈ termPairs children) {n : Node} (hn : n ∈ p.definition) : n ∈ children :=
  mem_of_mem_nodes hp (List.mem_cons_of_mem _ hn)

/-! ## Merging -/

/-- The terms of a list by their texts; of terms with one text the last counts. -/
def byTerm (children : List Node) : Entries String TermPair :=
  Entries.ofPairs ((termPairs children).map fun p => (p.text, p))

def firstList? : List Node → Option (List Node)
  | [] => none
  | n :: rest => if n.isA .definitionList then some n.children else firstList? rest

/-- Change the children of the first definition list among nodes. -/
def mapFirstList (f : List Node → List Node) : List Node → List Node
  | [] => []
  | n :: rest =>
    if n.isA .definitionList then n.withChildren (f n.children) :: rest
    else n :: mapFirstList f rest

def inOrder (terms : Entries String TermPair) : List Node :=
  (terms.mergeSort fun a b => a.1 ≤ b.1).flatMap fun (_, p) => p.nodes

theorem mem_termPairs_of_byTerm {children : List Node} {t : String} {p : TermPair}
    (h : Entries.get? (byTerm children) t = some p) : p ∈ termPairs children := by
  rcases Entries.mem_foldl_put _ _ (Entries.mem_of_get? h) with h | h
  · simp at h
  · obtain ⟨q, hq, he⟩ := List.mem_map.1 h
    simp only [Prod.mk.injEq] at he
    exact he.2 ▸ hq

theorem sizeOf_firstList? {nodes inner : List Node} (h : firstList? nodes = some inner) :
    ∃ n ∈ nodes, sizeOf inner < sizeOf n := by
  induction nodes with
  | nil => simp [firstList?] at h
  | cons n rest ih =>
    by_cases hn : n.isA .definitionList
    · simp only [firstList?, hn, if_pos, Option.some.injEq] at h
      refine ⟨n, List.mem_cons_self, ?_⟩
      cases n with
      | text s => simp [Node.isA, Node.kind?] at hn
      | element name as cs =>
        simp only [Node.children] at h
        subst h
        simp only [Node.element.sizeOf_spec]
        omega
    · simp only [firstList?, hn, if_neg, not_false_eq_true, Bool.false_eq_true] at h
      obtain ⟨m, hm, hs⟩ := ih h
      exact ⟨m, List.mem_cons_of_mem _ hm, hs⟩

theorem sizeOf_nested {source inner : List Node} {t : String} {q : TermPair}
    (hq : Entries.get? (byTerm source) t = some q) (hi : firstList? q.definition = some inner) :
    sizeOf inner < sizeOf source := by
  obtain ⟨n, hn, hs⟩ := sizeOf_firstList? hi
  have := List.sizeOf_lt_of_mem (mem_of_mem_definition (mem_termPairs_of_byTerm hq) hn)
  omega

/-- The children of a list after it has taken in the terms of `source`. -/
def merge (source dest : List Node) : List Node :=
  let lent := byTerm source
  let own := byTerm dest
  let kept := own.map fun (t, p) =>
    match _hq : Entries.get? lent t with
    | none => (t, p)
    | some q =>
      match _hi : firstList? q.definition with
      | none => (t, p)
      | some inner => (t, { p with definition := mapFirstList (fun d => merge inner d) p.definition })
  let added := lent.filter fun (t, _) => (Entries.get? own t).isNone
  inOrder (kept ++ added)
termination_by sizeOf source
decreasing_by exact sizeOf_nested _hq _hi

/-- A term of the receiving list after it has met the term of the same text. -/
def absorb (lent : Option TermPair) (p : TermPair) : TermPair :=
  match lent.bind fun q => firstList? q.definition with
  | none => p
  | some inner => { p with definition := mapFirstList (merge inner) p.definition }

theorem merge_eq (source dest : List Node) :
    merge source dest =
      inOrder ((byTerm dest).map (fun (t, p) => (t, absorb (Entries.get? (byTerm source) t) p)) ++
        (byTerm source).filter fun (t, _) => (Entries.get? (byTerm dest) t).isNone) := by
  rw [merge]
  congr 1
  congr 1
  apply List.map_congr_left
  rintro ⟨t, p⟩ -
  simp only [absorb]
  split
  · next h => simp [h]
  · next q h =>
    split
    · next hi => simp [h, hi]
    · next inner hi => simp [h, hi]

end DefinitionList

namespace Node

/-- A definition list after it has taken in the terms of another. Mirrors `merge_definition_lists`
for lists that share no element. -/
def mergeList (source dest : Node) : Node :=
  dest.withChildren (DefinitionList.merge source.children dest.children)

end Node
end RouteDocs
