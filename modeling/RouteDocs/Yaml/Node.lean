import RouteDocs.Yaml.Schema

/-!
# Nodes of a YAML text

The nodes of a document are numbered, because an alias stands for a node that
may stand around it. A collection names its items by their numbers.
-/
namespace RouteDocs.Yaml

open Text (WideText)

/-- What a node holds. -/
inductive Shape where
  | scalar (text : WideText)
  | list (items : List Nat)
  | mapping (members : List (Nat × Nat))

/-- A node. `merged` are the members that a mapping has taken in from others, if it has taken in
any; they stand before its own in `shape`. -/
structure Node where
  kind : NodeKind
  shape : Shape
  merged : Option (List (Nat × Nat))

instance : Inhabited Node := ⟨⟨.unknown, .scalar [], none⟩⟩

/-- The nodes of a document by their numbers. -/
abbrev Graph := Array Node

/-- A document: its nodes, the number of its root, and the version of its format. -/
structure Document where
  graph : Graph
  root : Nat
  version : Version

namespace Node

def members? (n : Node) : Option (List (Nat × Nat)) :=
  match n.shape with
  | .mapping ms => some ms
  | _ => none

def withMembers (n : Node) (ms : List (Nat × Nat)) : Node :=
  { n with shape := .mapping ms }

/-- What a scalar is: of the type that its tag names, or else by its form if it is plain or has the
mark for no type. -/
def scalarKind (v : Version) (tag : Option String) (text : WideText) (plain : Bool) : NodeKind :=
  match tag with
  | none => if plain then Form.kind v text else .core .text
  | some tag => if tag = "!" then Form.kind v text else NodeKind.ofTag tag

/-- What a collection is: of the type that its tag names, or else of a type of its own. -/
def collectionKind (own : CoreType) (tag : Option String) : NodeKind :=
  match tag with
  | none => .core own
  | some tag => if tag = "!" then .core own else NodeKind.ofTag tag

end Node
end RouteDocs.Yaml
