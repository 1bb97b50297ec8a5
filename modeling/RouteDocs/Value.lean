import RouteDocs.Entries
import RouteDocs.Number.Arithmetic

/-!
# Values

The values that the attributes of a tree hold: those of a JSON text, with the
members of a mapping in their order.
-/
namespace RouteDocs

/-- A value of an attribute or of a JSON text. -/
inductive Value where
  | null
  | bool (b : Bool)
  | int (n : Int)
  | real (x : Binary64)
  | text (s : String)
  | list (items : List Value)
  | mapping (members : List (String × Value))

instance : Inhabited Value := ⟨.null⟩

abbrev Attributes := Entries String Value

namespace Value

/-- A value that counts as set: not null, false, zero or empty. -/
def isSet : Value → Bool
  | null => false
  | bool b => b
  | int n => n != 0
  | real x => !x.isZero
  | text s => s != ""
  | list items => !items.isEmpty
  | mapping members => !members.isEmpty

/-- A value that can be a key: neither a list nor a mapping. -/
def isScalar : Value → Bool
  | list _ => false
  | mapping _ => false
  | _ => true

/-- A boolean counts as the number one or zero. -/
def asNumber : Value → Value
  | bool b => int (if b then 1 else 0)
  | v => v

/-- Equality of keys: numbers by value, texts by their characters. -/
def sameKey (v w : Value) : Bool :=
  match v.asNumber, w.asNumber with
  | null, null => true
  | int m, int n => m == n
  | int m, real y => y.equalsInt m
  | real x, int n => x.equalsInt n
  | real x, real y => x.sameValue y
  | text s, text t => s == t
  | _, _ => false

/-- A number, as which a boolean counts too. -/
def isNumber (v : Value) : Bool :=
  match v.asNumber with
  | int _ => true
  | real _ => true
  | _ => false

/-- Whether a number is above another, by value. -/
def isAbove (v w : Value) : Bool :=
  match v.asNumber, w.asNumber with
  | int m, int n => n < m
  | int m, real y => y.isBelowInt m
  | real x, int n => x.isAboveInt n
  | real x, real y => y.isBelow x
  | _, _ => false

end Value
end RouteDocs
