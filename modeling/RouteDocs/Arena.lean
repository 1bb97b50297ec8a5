import RouteDocs.Node

/-!
# Elements in their places

A tree as a value does not tell whether two elements of it are one and the same.
An arena tells: every element stands in a place, it holds the places of its
child elements, and whoever names a place sees what was put there last. An
element that is named twice is one element.

Results:
* `cell?_add`, `cell?_setItems`: what stands in a place after a change.
* `setItems_self`: a change that is none.
-/
namespace RouteDocs

/-- A child as an element holds it: a text, or the place of an element. -/
inductive Item where
  | text (content : String)
  | element (place : Nat)

/-- An element in its place, with its children as items. -/
structure Cell where
  name : String
  attributes : Attributes
  items : List Item

/-- Elements by their places. -/
structure Arena where
  cells : List Cell

namespace Arena

def empty : Arena := ⟨[]⟩

def size (a : Arena) : Nat := a.cells.length

def cell? (a : Arena) (i : Nat) : Option Cell := a.cells[i]?

/-- Put an element into the first free place. -/
def add (a : Arena) (c : Cell) : Arena := ⟨a.cells ++ [c]⟩

def setItems (a : Arena) (i : Nat) (items : List Item) : Arena :=
  ⟨a.cells.modify i fun c => { c with items := items }⟩

theorem size_add (a : Arena) (c : Cell) : (a.add c).size = a.size + 1 := by
  simp [add, size]

theorem size_setItems (a : Arena) (i : Nat) (items : List Item) :
    (a.setItems i items).size = a.size := by
  simp [setItems, size]

theorem cell?_add (a : Arena) (c : Cell) (i : Nat) :
    (a.add c).cell? i = if i = a.size then some c else a.cell? i := by
  unfold add cell? size
  rcases Nat.lt_trichotomy i a.cells.length with h | h | h
  · rw [if_neg (Nat.ne_of_lt h), List.getElem?_append_left h]
  · rw [if_pos h, h, List.getElem?_concat_length]
  · rw [if_neg (Nat.ne_of_gt h), List.getElem?_eq_none (Nat.le_of_lt h), List.getElem?_eq_none]
    rw [List.length_append, List.length_singleton]
    exact h

theorem cell?_setItems (a : Arena) (i : Nat) (items : List Item) (j : Nat) :
    (a.setItems i items).cell? j =
      (a.cell? j).map fun c => if i = j then { c with items := items } else c := by
  unfold setItems cell?
  rw [List.getElem?_modify]
  rfl

/-- The children that an element has may be given to it again. -/
theorem setItems_self {a : Arena} {i : Nat} {c : Cell} (h : a.cell? i = some c) :
    a.setItems i c.items = a := by
  refine congrArg Arena.mk (List.ext_getElem? fun j => ?_)
  rw [List.getElem?_modify]
  by_cases hj : i = j
  · subst hj
    have hcell : a.cells[i]? = some c := h
    rw [hcell]
    simp
  · simp [hj]

/-! ## Trees in places -/

mutual

/-- Put the elements of a tree into free places, children first; the item that stands for it. -/
def write (a : Arena) : Node → Item × Arena
  | .text s => (.text s, a)
  | .element name as cs =>
    let (items, a) := a.writeAll cs
    (.element a.size, a.add ⟨name, as, items⟩)

/-- Put the elements of trees into free places. -/
def writeAll (a : Arena) : List Node → List Item × Arena
  | [] => ([], a)
  | n :: rest =>
    let (item, a) := a.write n
    let (items, a) := a.writeAll rest
    (item :: items, a)

end

/-- The tree that an item stands for, if its elements lie at most `depth` deep in each other. -/
def read (a : Arena) : Nat → Item → Option Node
  | _, .text s => some (.text s)
  | 0, .element _ => none
  | depth + 1, .element i => do
    let c ← a.cell? i
    return .element c.name c.attributes (← c.items.mapM (a.read depth))

/-- The tree that an item stands for. The elements of a tree are all in places of their own, so
that they cannot lie deeper in each other than there are places. -/
def tree? (a : Arena) (item : Item) : Option Node :=
  a.read a.size item

def trees? (a : Arena) (items : List Item) : Option (List Node) :=
  items.mapM a.tree?

/-- A second tree like that of an item, made of new elements. -/
def copy (a : Arena) (item : Item) : Option (Item × Arena) := do
  return a.write (← a.tree? item)

/-- Trees like those of items, made of new elements. -/
def copyAll (a : Arena) (items : List Item) : Option (List Item × Arena) := do
  return a.writeAll (← a.trees? items)

end Arena
end RouteDocs
