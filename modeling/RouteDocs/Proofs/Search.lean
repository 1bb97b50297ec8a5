import Mathlib.Data.List.Basic
import RouteDocs.Node

/-!
# Searching a tree

A search finds the elements with a wanted name, and does not look inside of them:
an element is found if none of the elements around it has a wanted name. Each is
found once, in the order of the addresses, which is that of the document. A search
for one name gives the children of the elements that are found.

Results:
* `mem_outermost_iff`: the addresses of a search are those of the outermost wanted elements.
* `pairwise_outermost`: they come in the order of the document.
* `map_at?_outermost`: the elements at them are what is found.
* `find_outermost`: what a search finds, for names and for a name.
-/
namespace RouteDocs.Node

variable {wanted : String → Bool} {n : Node} {i : Nat} {path : List Nat}

/-- Whether a node is an element with a wanted name. -/
def isWanted (wanted : String → Bool) : Node → Bool
  | text _ => false
  | element name _ _ => wanted name

/-- There is an element with a wanted name at an address, and none of the elements around it has
one. -/
structure IsOutermost (wanted : String → Bool) (root : Node) (path : List Nat) : Prop where
  here : ∃ m, root.at? path = some m ∧ m.isWanted wanted = true
  around : ∀ k < path.length, ∀ m, root.at? (path.take k) = some m → m.isWanted wanted = false

theorem isOutermost_nil : IsOutermost wanted n [] ↔ n.isWanted wanted = true := by
  constructor
  · rintro ⟨⟨m, hm, hwanted⟩, -⟩
    cases hm
    exact hwanted
  · exact fun h => ⟨⟨n, rfl, h⟩, nofun⟩

/-- An element inside of a node is outermost if the node has no wanted name and it is outermost in
the child that it is in. -/
theorem isOutermost_cons :
    IsOutermost wanted n (i :: path) ↔ n.isWanted wanted = false ∧
      ∃ child, n.children[i]? = some child ∧ IsOutermost wanted child path := by
  constructor
  · rintro ⟨⟨m, hm, hwanted⟩, haround⟩
    obtain ⟨child, hchild, hm⟩ := Option.bind_eq_some_iff.1 hm
    refine ⟨haround 0 (Nat.zero_lt_succ _) n rfl, child, hchild, ⟨m, hm, hwanted⟩, ?_⟩
    intro k hk l hl
    exact haround (k + 1) (Nat.succ_lt_succ hk) l (Option.bind_eq_some_iff.2 ⟨child, hchild, hl⟩)
  · rintro ⟨hn, child, hchild, ⟨m, hm, hwanted⟩, haround⟩
    refine ⟨⟨m, Option.bind_eq_some_iff.2 ⟨child, hchild, hm⟩, hwanted⟩, fun k hk l hl => ?_⟩
    cases k with
    | zero => exact Option.some.inj hl ▸ hn
    | succ k =>
      obtain ⟨child', hchild', hl⟩ := Option.bind_eq_some_iff.1 hl
      obtain rfl := Option.some.inj (hchild.symm.trans hchild')
      exact haround k (Nat.lt_of_succ_lt_succ hk) l hl

/-! ## Where a search finds -/

mutual

/-- The addresses of what a search finds in a node, in the order in which it is found. -/
def outermost (wanted : String → Bool) : Node → List (List Nat)
  | text _ => []
  | element name _ cs => if wanted name then [[]] else outermostFrom wanted 0 cs

/-- The addresses of what a search finds in nodes, of which the first is at a position. -/
def outermostFrom (wanted : String → Bool) (i : Nat) : List Node → List (List Nat)
  | [] => []
  | n :: rest => (n.outermost wanted).map (i :: ·) ++ outermostFrom wanted (i + 1) rest

end

theorem mem_outermostFrom {ns : List Node} :
    path ∈ outermostFrom wanted i ns ↔
      ∃ j below child, path = (i + j) :: below ∧ ns[j]? = some child ∧
        below ∈ child.outermost wanted := by
  induction ns generalizing i with
  | nil => simp [outermostFrom]
  | cons n rest ih =>
    rw [outermostFrom, List.mem_append, List.mem_map, ih]
    constructor
    · rintro (⟨below, hbelow, rfl⟩ | ⟨j, below, child, rfl, hchild, hbelow⟩)
      · exact ⟨0, below, n, rfl, rfl, hbelow⟩
      · exact ⟨j + 1, below, child, by rw [Nat.add_right_comm, Nat.add_assoc], hchild, hbelow⟩
    · rintro ⟨_ | j, below, child, rfl, hchild, hbelow⟩
      · exact .inl ⟨below, Option.some.inj hchild ▸ hbelow, rfl⟩
      · exact .inr ⟨j, below, child, by rw [Nat.add_right_comm, Nat.add_assoc], hchild, hbelow⟩

/-- The addresses of a search are those of the outermost wanted elements. -/
theorem mem_outermost_iff : path ∈ n.outermost wanted ↔ IsOutermost wanted n path := by
  induction path generalizing n with
  | nil =>
    rw [isOutermost_nil]
    cases n with
    | text s => simp [outermost, isWanted]
    | element name as cs =>
      cases h : wanted name with
      | true => simp [outermost, isWanted, h]
      | false => simp [outermost, isWanted, h, mem_outermostFrom]
  | cons i path ih =>
    rw [isOutermost_cons]
    cases n with
    | text s => simp [outermost, children]
    | element name as cs =>
      cases h : wanted name with
      | true => simp [outermost, isWanted, h]
      | false => simp [outermost, isWanted, h, mem_outermostFrom, children, ih, and_assoc]

mutual

/-- The addresses come in the order of the document. -/
theorem pairwise_outermost : ∀ n : Node, (n.outermost wanted).Pairwise (· < ·)
  | text _ => List.Pairwise.nil
  | element name as cs => by
    rw [outermost]
    split
    · exact List.pairwise_singleton _ _
    · exact pairwise_outermostFrom 0 cs

theorem pairwise_outermostFrom (i : Nat) : ∀ ns : List Node,
    (outermostFrom wanted i ns).Pairwise (· < ·)
  | [] => List.Pairwise.nil
  | n :: rest => by
    rw [outermostFrom, List.pairwise_append]
    refine ⟨?_, pairwise_outermostFrom (i + 1) rest, ?_⟩
    · exact List.pairwise_map.2 ((pairwise_outermost n).imp fun h =>
        List.cons_lt_cons_iff.2 (.inr ⟨rfl, h⟩))
    · intro path hpath later hlater
      obtain ⟨below, -, rfl⟩ := List.mem_map.1 hpath
      obtain ⟨j, below', child, rfl, -, -⟩ := mem_outermostFrom.1 hlater
      exact List.cons_lt_cons_iff.2 (.inl (by omega))

end

mutual

/-- At the addresses of a search is what it finds. -/
theorem map_at?_outermost : ∀ n : Node,
    (n.outermost wanted).map n.at? = (n.find wanted).map some
  | text _ => rfl
  | element name as cs => by
    rw [outermost, find]
    split
    · rfl
    · exact map_at?_outermostFrom (element name as cs) 0 cs fun _ => by rw [Nat.zero_add]; rfl

theorem map_at?_outermostFrom (root : Node) (i : Nat) : ∀ ns : List Node,
    (∀ j, root.children[i + j]? = ns[j]?) →
      (outermostFrom wanted i ns).map root.at? = (findAll wanted ns).map some
  | [], _ => rfl
  | n :: rest, h => by
    have hn : root.children[i]? = some n := h 0
    have hfirst : ((n.outermost wanted).map (i :: ·)).map root.at? =
        (n.outermost wanted).map n.at? := by
      rw [List.map_map]
      refine List.map_congr_left fun below _ => ?_
      rw [Function.comp_apply, at?, hn, Option.bind_some]
    have hrest : ∀ j, root.children[i + 1 + j]? = rest[j]? := fun j => by
      rw [Nat.add_assoc, Nat.add_comm 1 j, h (j + 1), List.getElem?_cons_succ]
    rw [outermostFrom, findAll, List.map_append, List.map_append, hfirst, map_at?_outermost n,
      map_at?_outermostFrom root (i + 1) rest hrest]

end

/-! ## A search for one name -/

mutual

theorem contents_eq_flatMap (name : String) : ∀ n : Node,
    n.contents name = (n.find (· == name)).flatMap children
  | text _ => rfl
  | element name' as cs => by
    rw [contents, find]
    by_cases h : name' = name
    · simp [h, children]
    · simp [h, contentsAll_eq name cs]

theorem contentsAll_eq (name : String) : ∀ ns : List Node,
    contentsAll name ns = (findAll (· == name) ns).flatMap children
  | [] => rfl
  | n :: rest => by
    rw [contentsAll, findAll, List.flatMap_append, contents_eq_flatMap name n, contentsAll_eq name rest]

end

/-- A search for names finds the elements with a wanted name that are in no other, each once and in
the order of the document. A search for a name gives the children of these elements, one after the
other. -/
theorem find_outermost (root : Node) :
    (∀ wanted : String → Bool, ∃ paths : List (List Nat), paths.Pairwise (· < ·) ∧
      (∀ path, path ∈ paths ↔ IsOutermost wanted root path) ∧
      (root.find wanted).map some = paths.map root.at?) ∧
    ∀ name, root.contents name = (root.find (· == name)).flatMap children := by
  refine ⟨fun wanted => ?_, fun name => contents_eq_flatMap name root⟩
  exact ⟨root.outermost wanted, pairwise_outermost root, fun _ => mem_outermost_iff,
    (map_at?_outermost root).symm⟩

end RouteDocs.Node
