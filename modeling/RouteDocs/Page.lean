import RouteDocs.Node

/-!
# Pages

A page is the root of a documentation tree with its top-level nodes as labelled
blocks. A label says which block is meant, whatever happens to the blocks
around it or to its own content: two blocks with equal content are two blocks.
A block that is taken off the page is kept aside, since an index may still
refer to it.

Results:
* `toNode_of_ofNode?`: a tree that is opened up and closed again is the same.
* `nodes_insertAt`, `nodes_keep`: what editing does to the top-level nodes.
-/
namespace RouteDocs

/-- A top-level node with its label. -/
structure Block where
  label : Nat
  node : Node

/-- A documentation tree, its top level opened up. -/
structure Page where
  name : String
  attributes : Attributes
  blocks : List Block
  removed : List Block
  nextLabel : Nat

namespace Page

def label (start : Nat) : List Node → List Block
  | [] => []
  | n :: rest => ⟨start, n⟩ :: label (start + 1) rest

/-- The page of an element. -/
def ofElement (name : String) (attributes : Attributes) (children : List Node) : Page :=
  ⟨name, attributes, label 0 children, [], children.length⟩

/-- The page of a tree whose root is an element. -/
def ofNode? : Node → Option Page
  | .text _ => none
  | .element name as cs => some (ofElement name as cs)

def nodes (p : Page) : List Node :=
  p.blocks.map (·.node)

def toNode (p : Page) : Node :=
  .element p.name p.attributes p.nodes

theorem map_node_label (start : Nat) (ns : List Node) : (label start ns).map (·.node) = ns := by
  induction ns generalizing start with
  | nil => rfl
  | cons n rest ih => simp [label, ih]

theorem toNode_ofElement (name : String) (as : Attributes) (cs : List Node) :
    (ofElement name as cs).toNode = .element name as cs := by
  simp [toNode, nodes, ofElement, map_node_label]

theorem toNode_of_ofNode? {n : Node} {p : Page} (h : ofNode? n = some p) : p.toNode = n := by
  cases n with
  | text s => simp [ofNode?] at h
  | element name as cs =>
    obtain rfl : ofElement name as cs = p := by simpa [ofNode?] using h
    exact toNode_ofElement name as cs

/-- The page with other content in its blocks, one node for each. -/
def withNodes (p : Page) (ns : List Node) : Page :=
  { p with blocks := p.blocks.zipWith (fun b n => { b with node := n }) ns }

/-- The page with the attributes and the content of a tree that has one child for each block. -/
def refresh (p : Page) (n : Node) : Page :=
  { p.withNodes n.children with attributes := n.attributes }

/-! ## Blocks by label -/

/-- The content of the block with a label, on the page or aside. -/
def node? (p : Page) (l : Nat) : Option Node :=
  ((p.blocks ++ p.removed).find? fun b => b.label == l).map (·.node)

/-- The place of a block among the blocks of the page. -/
def position? (p : Page) (l : Nat) : Option Nat :=
  p.blocks.findIdx? fun b => b.label == l

/-- Change the content of the blocks with a label. -/
def modifyBlocks (l : Nat) (f : Node → Node) (bs : List Block) : List Block :=
  bs.map fun b => if b.label = l then { b with node := f b.node } else b

/-- Change the content of the block with a label, on the page or aside. -/
def modify (p : Page) (l : Nat) (f : Node → Node) : Page :=
  { p with blocks := modifyBlocks l f p.blocks, removed := modifyBlocks l f p.removed }

/-! ## Editing -/

/-- Put new nodes before the block at a position, or last if there is none. -/
def insertAt (p : Page) (position : Nat) (new : List Node) : Page :=
  { p with
    blocks := p.blocks.take position ++ label p.nextLabel new ++ p.blocks.drop position
    nextLabel := p.nextLabel + new.length }

theorem nodes_insertAt (p : Page) (position : Nat) (new : List Node) :
    (p.insertAt position new).nodes =
      p.nodes.take position ++ new ++ p.nodes.drop position := by
  simp [nodes, insertAt, map_node_label, List.map_take, List.map_drop]

/-- Take the block at a position off the page. -/
def removeAt? (p : Page) (position : Nat) : Option Page :=
  match p.blocks[position]? with
  | none => none
  | some b => some { p with blocks := p.blocks.eraseIdx position, removed := p.removed ++ [b] }

/-- Take off the page what does not satisfy a test. -/
def keep (p : Page) (test : Node → Bool) : Page :=
  { p with
    blocks := p.blocks.filter fun b => test b.node
    removed := p.removed ++ p.blocks.filter fun b => !test b.node }

theorem nodes_keep (p : Page) (test : Node → Bool) :
    (p.keep test).nodes = p.nodes.filter test := by
  simp [nodes, keep, List.filter_map, Function.comp_def]

/-- A position counted from the end if it is negative, and not before the start. -/
def fromEnd (size : Nat) (position : Int) : Nat :=
  if position < 0 then (position + size).toNat else position.toNat

/-- Insert a node; a position beyond the end means the end. -/
def insert (p : Page) (position : Int) (n : Node) : Page :=
  p.insertAt (fromEnd p.blocks.length position) [n]

/-- Delete the block at a position, if there is one. -/
def delete? (p : Page) (position : Int) : Option Page :=
  if position < -(p.blocks.length : Int) then none
  else p.removeAt? (fromEnd p.blocks.length position)

end Page
end RouteDocs
