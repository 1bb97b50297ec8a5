import RouteDocs.Fault
import RouteDocs.Html.Escape

/-!
# Tags

An opening tag lists its attributes in the order of their names, each value
shown and escaped between quotes. A value that cannot be shown makes the tag fail.
Attributes may also come as a list of whole numbers: each of them is a name, and
its value is the entry that it counts to. The first number in order that counts to
no entry is the one that is refused.

Results:
* `openingTag_mapping_ok_iff`: the tag of a mapping, if all its values can be written.
-/
namespace RouteDocs.Html

def attributeText (name : String) (v : Value) : String :=
  " " ++ name ++ "=\"" ++ escape true v.shown ++ "\""

def sortedByName (as : Attributes) : Attributes :=
  as.mergeSort fun a b => a.1 ≤ b.1

/-- An opening tag with attributes as they are to be listed. -/
def openingTagListing (name : String) (as : Attributes) : String :=
  "<" ++ name ++ String.join (as.map fun (k, v) => attributeText k v) ++ ">"

def openingTagWith (name : String) (as : Attributes) : String :=
  openingTagListing name (sortedByName as)

/-- The entry that a number counts to: from the first on, or back from the end if negative. -/
def entryAt? (items : List Value) (n : Int) : Option Value :=
  let place := if n < 0 then n + items.length else n
  if place < 0 then none else items[place.toNat]?

/-- The attribute of a number: its entry, under the number's own name. Only a whole number counts to
an entry. -/
def numberedAttribute (items : List Value) (name : Value) : Except Fault (String × Value) :=
  match name.asNumber with
  | .int n => do
    let shown ← name.toText
    match entryAt? items n with
    | some v => if v.isWritable then .ok (shown, v) else .error .tooManyDigits
    | none => .error .positionOutOfRange
  | _ => .error .wrongType

/-- The attributes of a list of numbers, in the order of the numbers. -/
def numberedAttributes (items : List Value) : Except Fault Attributes :=
  if items.all Value.isNumber then
    (items.mergeSort fun v w => !v.isAbove w).mapM (numberedAttribute items)
  else .error .wrongType

/-- An opening tag with attributes that are a value of a tree: a mapping, a list of whole numbers,
or a value that is not set and stands for none. Mirrors `beginning_tag`. -/
def openingTag (name : String) (as : Option Value) : Except Fault String :=
  match as with
  | none => .ok (openingTagWith name [])
  | some (.mapping ms) =>
    if (Value.mapping ms).isWritable then .ok (openingTagWith name ms) else .error .tooManyDigits
  | some (.list items) => (numberedAttributes items).map (openingTagListing name)
  | some v => if v.isSet then .error .wrongType else .ok (openingTagWith name [])

theorem openingTag_mapping_ok_iff {name tag : String} {ms : Attributes} :
    openingTag name (some (.mapping ms)) = .ok tag ↔
      (Value.mapping ms).isWritable = true ∧ tag = openingTagWith name ms := by
  rw [openingTag, eq_comm (a := tag)]
  cases (Value.mapping ms).isWritable <;> simp

def closingTag (name : String) : String :=
  "</" ++ name ++ ">"

end RouteDocs.Html
