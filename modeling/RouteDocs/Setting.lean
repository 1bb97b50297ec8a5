import RouteDocs.Calendar
import RouteDocs.Value
import RouteDocs.Number.Numeral
import RouteDocs.Text.Quoted

/-!
# Settings

What a configuration file can hold: values as in a tree, and beyond them wide
texts, bytes, dates and moments, tuples, sets and ordered mappings. The key of
a mapping may be any setting that cannot change.

A setting can hold itself. A collection that does is marked by a label
(`shared`), and the places within it that stand for it refer back to the label
(`back`). `opened` puts the collection itself in these places, so that its
parts can be looked at on their own.

A setting can be shown in two ways: as it is written among others (`written`,
with quoted texts) and on its own (`shown`, where a text stands for itself).
Values of a tree are shown alike. Neither is to be had of a setting with a number
of more than 4300 digits: `isWritable` tells, and what shows a setting asks it.

Results:
* `opened_ofValue`: a value of a tree never refers back.
* `Value.isWritable_list`, `Value.isWritable_mapping`: a collection can be written if its parts
  can be.
-/
namespace RouteDocs

inductive Setting where
  | null
  | bool (b : Bool)
  | int (n : Int)
  | real (x : Binary64)
  | text (s : Text.WideText)
  | bytes (bs : List UInt8)
  | date (d : Date)
  | moment (m : Moment)
  | list (items : List Setting)
  | tuple (items : List Setting)
  | mapping (members : List (Setting × Setting))
  | ordered (members : List (Setting × Setting))
  | set (items : List Setting)
  /-- A collection with the label that refers back to it from within. -/
  | shared (label : Nat) (content : Setting)
  | back (label : Nat)

instance : Inhabited Setting := ⟨.null⟩

namespace Setting

def ofText (s : String) : Setting := text (.ofString s)

/-! ## References -/

mutual

def replace (label : Nat) (whole : Setting) : Setting → Setting
  | list items => list (replaceItems label whole items)
  | tuple items => tuple (replaceItems label whole items)
  | mapping members => mapping (replaceMembers label whole members)
  | ordered members => ordered (replaceMembers label whole members)
  | set items => set (replaceItems label whole items)
  | shared l content => if l = label then shared l content else shared l (replace label whole content)
  | back l => if l = label then whole else back l
  | s => s

def replaceItems (label : Nat) (whole : Setting) : List Setting → List Setting
  | [] => []
  | s :: rest => replace label whole s :: replaceItems label whole rest

def replaceMembers (label : Nat) (whole : Setting) :
    List (Setting × Setting) → List (Setting × Setting)
  | [] => []
  | (k, v) :: rest =>
    (replace label whole k, replace label whole v) :: replaceMembers label whole rest

end

/-- A collection without its label: what refers back to it is the collection itself. -/
def opened : Setting → Setting
  | shared label content => replace label (shared label content) content
  | s => s

/-! ## Kinds -/

def typeName : Setting → String
  | null => "NoneType"
  | bool _ => "bool"
  | int _ => "int"
  | real _ => "float"
  | text _ => "str"
  | bytes _ => "bytes"
  | date _ => "date"
  | moment _ => "datetime"
  | list _ => "list"
  | tuple _ => "tuple"
  | mapping _ => "dict"
  | ordered _ => "ordereddict"
  | set _ => "set"
  | shared _ content => content.typeName
  | back _ => ""

/-- A setting that counts as set: not null, false, zero or empty. -/
def isSet : Setting → Bool
  | null => false
  | bool b => b
  | int n => n != 0
  | real x => !x.isZero
  | text s => !s.isEmpty
  | bytes bs => !bs.isEmpty
  | list items => !items.isEmpty
  | tuple items => !items.isEmpty
  | mapping members => !members.isEmpty
  | ordered members => !members.isEmpty
  | set items => !items.isEmpty
  | shared _ content => content.isSet
  | _ => true

def members? (s : Setting) : Option (List (Setting × Setting)) :=
  match s.opened with
  | mapping members => some members
  | ordered members => some members
  | _ => none

/-! ## Written forms -/

mutual

/-- Whether a setting can be written: each number in it has few enough digits. -/
def isWritable : Setting → Bool
  | int n => Numeral.isWritable n
  | list items => areWritable items
  | tuple items => areWritable items
  | mapping members => membersWritable members
  | ordered members => membersWritable members
  | set items => areWritable items
  | shared _ content => content.isWritable
  | _ => true

def areWritable : List Setting → Bool
  | [] => true
  | s :: rest => s.isWritable && areWritable rest

/-- Whether the keys and values of all members can be written. -/
def membersWritable : List (Setting × Setting) → Bool
  | [] => true
  | (k, v) :: rest => k.isWritable && v.isWritable && membersWritable rest

end

def writtenByte (quote : Char) (b : UInt8) : List Char :=
  Text.quotedChar (fun c => 0x20 ≤ c.toNat && c.toNat < 0x7f) quote (Char.ofNat b.toNat)

def writtenBytes (bs : List UInt8) : String :=
  let quote := Text.quoteFor (bs.map fun b => .char (Char.ofNat b.toNat))
  String.ofList ('b' :: quote :: bs.flatMap (writtenByte quote) ++ [quote])

/-- A setting that is no collection, as it is written among others. -/
def writtenScalar : Setting → String
  | null => "None"
  | bool b => if b then "True" else "False"
  | int n => toString n
  | real x => x.format Binary64.textFormat
  | text s => Text.quotedWide s
  | bytes bs => writtenBytes bs
  | date d => d.written
  | moment m => m.written
  | _ => ""

/-- What stands for a collection within itself. -/
def ellipsis : Setting → String
  | list _ => "[...]"
  | tuple _ => "(...)"
  | mapping _ => "\x7b...\x7d"
  | _ => "..."

mutual

/-- A setting as it is written among others, within collections with the given labels. -/
def writtenWithin (around : List (Nat × String)) : Setting → String
  | list items => "[" ++ writtenItems around items ++ "]"
  | tuple items =>
    "(" ++ writtenItems around items ++ (if items.length = 1 then ",)" else ")")
  | mapping members => "\x7b" ++ writtenMembers around members ++ "\x7d"
  | ordered members =>
    "ordereddict(" ++
      (if members.isEmpty then "" else "[" ++ writtenPairs around members ++ "]") ++ ")"
  | set items =>
    if items.isEmpty then "set()" else "\x7b" ++ writtenItems around items ++ "\x7d"
  | shared label content =>
    match around.lookup label with
    | some s => s
    | none => content.writtenWithin ((label, content.ellipsis) :: around)
  | back label => (around.lookup label).getD ""
  | s => s.writtenScalar

def writtenItems (around : List (Nat × String)) : List Setting → String
  | [] => ""
  | [s] => s.writtenWithin around
  | s :: rest => s.writtenWithin around ++ ", " ++ writtenItems around rest

/-- The members of a mapping, separated by commas. -/
def writtenMembers (around : List (Nat × String)) : List (Setting × Setting) → String
  | [] => ""
  | [(k, v)] => k.writtenWithin around ++ ": " ++ v.writtenWithin around
  | (k, v) :: rest =>
    k.writtenWithin around ++ ": " ++ v.writtenWithin around ++ ", " ++ writtenMembers around rest

/-- The members of an ordered mapping as tuples, separated by commas. -/
def writtenPairs (around : List (Nat × String)) : List (Setting × Setting) → String
  | [] => ""
  | [(k, v)] => "(" ++ k.writtenWithin around ++ ", " ++ v.writtenWithin around ++ ")"
  | (k, v) :: rest =>
    "(" ++ k.writtenWithin around ++ ", " ++ v.writtenWithin around ++ "), " ++
      writtenPairs around rest

end

/-- A setting as it is written among others. -/
def written (s : Setting) : String :=
  s.writtenWithin []

/-- A setting on its own: a text stands for itself, and dates take their plain form. -/
def shown : Setting → Text.WideText
  | text s => s
  | date d => .ofString d.plain
  | moment m => .ofString m.plain
  | s => .ofString s.written

/-! ## Values of a tree -/

mutual

def ofValue : Value → Setting
  | .null => null
  | .bool b => bool b
  | .int n => int n
  | .real x => real x
  | .text s => ofText s
  | .list items => list (ofValues items)
  | .mapping members => mapping (ofMembers members)

def ofValues : List Value → List Setting
  | [] => []
  | v :: rest => ofValue v :: ofValues rest

def ofMembers : List (String × Value) → List (Setting × Setting)
  | [] => []
  | (k, v) :: rest => (ofText k, ofValue v) :: ofMembers rest

end

theorem opened_ofValue (v : Value) : (ofValue v).opened = ofValue v := by
  cases v <;> rfl

/-! ## Keys -/

/-- A boolean counts as the number one or zero. -/
def asNumber : Setting → Setting
  | bool b => int (if b then 1 else 0)
  | s => s

/-- Equality of keys that hold no others: numbers by value, the rest by what they are. That which
is no number is one key. -/
def sameScalar (s t : Setting) : Bool :=
  match s.asNumber, t.asNumber with
  | null, null => true
  | int m, int n => m == n
  | int m, real y => y.equalsInt m
  | real x, int n => x.equalsInt n
  | real x, real y => x.sameValue y || (x == .notANumber && y == .notANumber)
  | text a, text b => a == b
  | bytes a, bytes b => a == b
  | date a, date b => a == b
  | moment a, moment b => a.isSame b
  | _, _ => false

mutual

/-- Equality of keys: tuples item by item. -/
def sameKey : Setting → Setting → Bool
  | tuple xs, tuple ys => sameKeys xs ys
  | s, t => sameScalar s t

/-- Equality of rows of keys. -/
def sameKeys : List Setting → List Setting → Bool
  | [], [] => true
  | x :: xs, y :: ys => sameKey x y && sameKeys xs ys
  | _, _ => false

end

def member? (members : List (Setting × Setting)) (key : String) : Option Setting :=
  match members.find? fun (k, _) => sameKey k (ofText key) with
  | some (_, v) => some v
  | none => none

end Setting

namespace Value

/-- Whether a value can be written: each number in it has few enough digits. -/
def isWritable (v : Value) : Bool :=
  (Setting.ofValue v).isWritable

theorem isWritable_list {items : List Value} :
    (list items).isWritable = true ↔ ∀ v ∈ items, v.isWritable = true := by
  induction items with
  | nil => exact iff_of_true rfl nofun
  | cons v rest ih =>
    rw [List.forall_mem_cons, ← ih]
    exact iff_of_eq (Bool.and_eq_true _ _)

/-- The keys of a mapping are texts, so they can be written. -/
theorem isWritable_mapping {members : List (String × Value)} :
    (mapping members).isWritable = true ↔ ∀ m ∈ members, m.2.isWritable = true := by
  induction members with
  | nil => exact iff_of_true rfl nofun
  | cons m rest ih =>
    rw [List.forall_mem_cons, ← ih]
    exact iff_of_eq (Bool.and_eq_true _ _)

def typeName (v : Value) : String :=
  (Setting.ofValue v).typeName

def written (v : Value) : String :=
  (Setting.ofValue v).written

/-- A value on its own: a text stands for itself. -/
def shown : Value → String
  | .text s => s
  | v => v.written

end Value
end RouteDocs
