import RouteDocs.Json.Token
import RouteDocs.Text.Utf8
import RouteDocs.Yaml.Cursor

/-!
# Tags

A tag says of what type a node is. It stands in angle brackets in full, or
after a handle that a directive can define. A character of a tag may be
written by its bytes, each as a percent sign and two hexadecimal digits.
-/
namespace RouteDocs.Yaml.Tag

/-- A character of a tag. The number sign is one in the newer version of the format only. -/
def isTagChar (withNumberSign : Bool) (c : Char) : Bool :=
  c.isAlphanum || "-;/?:@&=+$,_.!~*'()[]%".toList.contains c || (withNumberSign && c == '#')

/-- A character of the name in a handle. -/
def isHandleChar (c : Char) : Bool :=
  c.isAlphanum || c == '-' || c == '_'

/-- The bytes of a tag, with those written as two digits read. -/
def bytes? : List Char → Option (List UInt8)
  | [] => some []
  | '%' :: a :: b :: rest => do
    let m ← Json.hexValue? a
    let n ← Json.hexValue? b
    return UInt8.ofNat (m * 16 + n) :: (← bytes? rest)
  | c :: rest => if c = '%' then none else do return UInt8.ofNat c.toNat :: (← bytes? rest)

/-- The characters that a tag stands for. -/
def decoded? (s : List Char) : Option (List Char) := do
  Text.textOfSymbols? (Text.symbolsOfBytes (← bytes? s))

/-- The characters of a tag at a place as they stand there, if they stand for a text, and the
place after them. -/
def name? (withNumberSign : Bool) (c : Cursor) : Option (List Char × Cursor) :=
  let name := c.run (isTagChar withNumberSign)
  if name.isEmpty || (decoded? name).isNone then none else some (name, c.advance name.length)

/-- The handle at a place, from one exclamation mark to the next, and the place after it. One that
a space follows is a handle by itself. -/
def handle? (c : Cursor) : Option (List Char × Cursor) :=
  if c.next? ≠ some '!' then none
  else if c.second? == some ' ' then some (['!'], c.step)
  else
    let name := c.step.run isHandleChar
    let after := c.step.advance name.length
    if after.next? == some '!' then some ('!' :: name ++ ['!'], after.step) else none

/-- A tag as it stands in a text: with the handle that it may have. -/
structure Written where
  handle : Option String
  suffix : String
  deriving DecidableEq

/-- The tag in angle brackets, and the place after it. -/
def verbatim? (withNumberSign : Bool) (c : Cursor) : Option (Written × Cursor) := do
  let (name, c) ← name? withNumberSign c
  if c.next? ≠ some '>' then none
  else return (⟨none, String.ofList (← decoded? name)⟩, c.step)

/-- The tag after a handle, and the place after it. `short` is the handle if no name stands in
it. -/
def handled? (withNumberSign : Bool) (short : List Char) (c : Cursor) :
    Option (Written × Cursor) := do
  let named := (c.step.run fun x => !endsPart (some x)).contains '!'
  let (handle, c) ← if named then handle? c else some (short, c.step)
  let (name, c) ← name? withNumberSign c
  return (⟨some (String.ofList handle), String.ofList (← decoded? name)⟩, c)

/-- The tag at a place, and the place after it. Exclamation marks alone are a tag by themselves. -/
def scan? (withNumberSign : Bool) (c : Cursor) : Option (Written × Cursor) := do
  let (short, c) := if c.second? == some '!' then (['!', '!'], c.step) else (['!'], c)
  let (tag, c) ←
    if c.second? == some '<' then verbatim? withNumberSign (c.advance 2)
    else if endsWord c.second? then some (⟨none, String.ofList short⟩, c.step)
    else handled? withNumberSign short c
  if endsPart c.next? then return (tag, c) else none

end RouteDocs.Yaml.Tag
