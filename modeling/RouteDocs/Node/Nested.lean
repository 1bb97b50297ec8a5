import RouteDocs.Node
import RouteDocs.Fault

/-!
# Trees as nested lists

A tree is exchanged as nested lists: a text is itself, an element is the list
of its name, the mapping of its attributes and its children. Reading refuses
the first value, in document order, that is neither, and tells the elements
around it.

Results:
* `ofValue_toValue`: reading what was written gives the tree back.
-/
namespace RouteDocs.Node

mutual

def toValue : Node → Value
  | text s => .text s
  | element name as cs => .list (.text name :: .mapping as :: toValues cs)

def toValues : List Node → List Value
  | [] => []
  | n :: rest => n.toValue :: toValues rest

end

/-- A value that is no node, within the elements of a trail. It is told as it is written, if it can
be. -/
def malformed (found : Value) (trail : List String) : Fault :=
  if found.isWritable then .notANode found trail else .tooManyDigits

mutual

/-- Read a tree. `trail` names the elements around the value, outermost first. Mirrors
`from_simple_tree`. -/
def ofValue (trail : List String) : Value → Except Fault Node
  | .text s => .ok (text s)
  | .list (.text name :: .mapping as :: rest) =>
    match ofValues (trail ++ [name]) rest with
    | .ok cs => .ok (element name as cs)
    | .error f => .error f
  | v => .error (malformed v trail)

def ofValues (trail : List String) : List Value → Except Fault (List Node)
  | [] => .ok []
  | v :: rest =>
    match ofValue trail v with
    | .error f => .error f
    | .ok n =>
      match ofValues trail rest with
      | .error f => .error f
      | .ok ns => .ok (n :: ns)

end

def rootOfValue (v : Value) : Except Fault Node :=
  match ofValue [] v with
  | .ok (text _) => .error .rootIsText
  | r => r

mutual

theorem ofValue_toValue (trail : List String) : ∀ n : Node, ofValue trail n.toValue = .ok n
  | text s => by simp [toValue, ofValue]
  | element name as cs => by simp [toValue, ofValue, ofValues_toValues (trail ++ [name]) cs]

theorem ofValues_toValues (trail : List String) :
    ∀ ns : List Node, ofValues trail (toValues ns) = .ok ns
  | [] => by simp [toValues, ofValues]
  | n :: rest => by
    simp [toValues, ofValues, ofValue_toValue trail n, ofValues_toValues trail rest]

end

end RouteDocs.Node
