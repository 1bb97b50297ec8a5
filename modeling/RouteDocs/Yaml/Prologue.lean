import RouteDocs.Yaml.Tag

/-!
# Directives

Before a document, lines that start with a percent sign tell the version of
the format and define the handles of tags. Others say nothing.
-/
namespace RouteDocs.Yaml

structure Version where
  major : Nat
  minor : Nat
  deriving DecidableEq

namespace Version

/-- The version whose rules differ. -/
def older : Version := ⟨1, 1⟩

/-- The version that holds when none is given. -/
def newer : Version := ⟨1, 2⟩

/-- Whether a version is after the older. -/
def isAfterOlder (v : Version) : Bool :=
  older.major < v.major || (v.major == older.major && older.minor < v.minor)

end Version

inductive Directive where
  | version (v : Version)
  | handle (handle start : String)
  | other
  deriving DecidableEq

namespace Directive

def isNameChar (c : Char) : Bool :=
  c.isAlphanum || c == '-' || c == '_' || c == ':' || c == '.'

/-- The number that digits stand for. -/
def numberOf (digits : List Char) : Nat :=
  digits.foldl (fun n d => n * 10 + (d.toNat - 0x30)) 0

/-- The version at a place, and the place after it. -/
def version? (c : Cursor) : Option (Directive × Cursor) :=
  let c := c.skipSpaces
  let major := c.run Char.isDigit
  let c := c.advance major.length
  if major.isEmpty || c.next? ≠ some '.' then none
  else
    let minor := c.step.run Char.isDigit
    let c := c.step.advance minor.length
    if minor.isEmpty || !endsPart c.next? then none
    else some (.version ⟨numberOf major, numberOf minor⟩, c)

/-- The definition of a handle at a place, and the place after it. -/
def handle? (withNumberSign : Bool) (c : Cursor) : Option (Directive × Cursor) := do
  let (name, c) ← Tag.handle? c.skipSpaces
  if c.next? ≠ some ' ' then none
  else
    let (start, c) ← Tag.name? withNumberSign c.skipSpaces
    if !endsPart c.next? then none
    else return (.handle (String.ofList name) (String.ofList start), c)

/-- The directive after a percent sign, up to the end of its line, and the place after that. -/
def scan? (withNumberSign : Bool) (c : Cursor) : Option (Directive × Cursor) := do
  let name := c.run isNameChar
  let c := c.advance name.length
  if name.isEmpty || !endsPart c.next? then none
  else
    let (d, c) ←
      if name = "YAML".toList then version? c
      else if name = "TAG".toList then handle? withNumberSign c
      else some (other, c.skip fun x => !isBreak x)
    let c := c.skipSpaces.skipComment
    if endsLine c.next? then return (d, c.step) else none

end Directive
end RouteDocs.Yaml
