import RouteDocs.Fault
import RouteDocs.Text.Quoted

/-!
# Parts of a target

A placeholder of a link template stands for a target or for a part of it: one
of its characters by its index, its class, or what a class tells of itself.
Only a text can be put into a field with a format. The methods of a text and the
other attributes that have no text of their own are left out.
-/
namespace RouteDocs.Html.LinkTemplate

def refuse {α : Type} (p : TemplateProblem) : Except Fault α :=
  .error (.linkTemplate p)

inductive PartClass where
  | text
  | row
  | ofClasses
  | ofNothing
  /-- The class above all others. -/
  | object
  deriving DecidableEq

namespace PartClass

def name : PartClass → String
  | text => "str"
  | row => "tuple"
  | ofClasses => "type"
  | ofNothing => "NoneType"
  | object => "object"

def above : PartClass → List PartClass
  | object => []
  | _ => [object]

def shown (c : PartClass) : String :=
  "<class '" ++ c.name ++ "'>"

end PartClass

inductive Part where
  | text (s : List Char)
  | one (c : PartClass)
  | row (cs : List PartClass)
  | nothing
  deriving DecidableEq

def aboutText : String :=
  "str(object='') -> str\n" ++
  "str(bytes_or_buffer[, encoding[, errors]]) -> str\n" ++
  "\n" ++
  "Create a new string object from the given object. If encoding or\n" ++
  "errors is specified, then the object must expose a data buffer\n" ++
  "that will be decoded using the given encoding and error handler.\n" ++
  "Otherwise, returns the result of object.__str__() (if defined)\n" ++
  "or repr(object).\n" ++
  "encoding defaults to sys.getdefaultencoding().\n" ++
  "errors defaults to 'strict'."

namespace Part

def ofPart : Part → PartClass
  | text _ => .text
  | one _ => .ofClasses
  | row _ => .row
  | nothing => .ofNothing

/-- A part as it is shown. A row of one has a comma after it. -/
def shown : Part → List Char
  | text s => s
  | one c => c.shown.toList
  | row [c] => ("(" ++ c.shown ++ ",)").toList
  | row cs => ("(" ++ ", ".intercalate (cs.map PartClass.shown) ++ ")").toList
  | nothing => "None".toList

/-- A part in its quoted form, with the characters that stand for themselves in it. -/
def quoted (plain : Char → Bool) : Part → List Char
  | text s => Text.quotedWith plain s
  | p => p.shown

def ofClass? (c : PartClass) (name : String) : Option Part :=
  match name with
  | "__name__" => some (text c.name.toList)
  | "__qualname__" => some (text c.name.toList)
  | "__module__" => some (text "builtins".toList)
  | "__bases__" => some (row c.above)
  | "__mro__" => some (row (c :: c.above))
  | "__base__" => some (c.above.head?.elim nothing one)
  | "__doc__" => if c = .text then some (text aboutText.toList) else none
  | _ => none

/-- The part under a name, of the names under which classes and texts are described. A text has more
attributes than these, its methods above all; what they show tells where they are kept, and a
template that asks for one is refused here. -/
def named? (p : Part) (name : String) : Option Part :=
  if name = "__class__" then some (one p.ofPart)
  else
    match p with
    | one c => ofClass? c name
    | text _ => if name = "__doc__" then some (text aboutText.toList) else none
    | _ => none

def item (p : Part) (i : Nat) : Except Fault Part :=
  match p with
  | text s =>
    match s[i]? with
    | some c => .ok (text [c])
    | none => refuse .position
  | row cs =>
    match cs[i]? with
    | some c => .ok (one c)
    | none => refuse .position
  | _ => refuse .index

end Part
end RouteDocs.Html.LinkTemplate
