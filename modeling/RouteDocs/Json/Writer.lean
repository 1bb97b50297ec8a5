import RouteDocs.Value
import RouteDocs.Text.Quoted

/-!
# Writing JSON

A value is written on several lines, two spaces deeper in each list or
mapping; an empty list or mapping stays closed. Texts keep every character
that is no control.
-/
namespace RouteDocs.Json

/-- A character between quotes. -/
def writtenChar (c : Char) : List Char :=
  if c = '"' ∨ c = '\\' then ['\\', c]
  else if c = Char.ofNat 0x08 then ['\\', 'b']
  else if c = Char.ofNat 0x0c then ['\\', 'f']
  else if c = '\n' then ['\\', 'n']
  else if c = '\r' then ['\\', 'r']
  else if c = '\t' then ['\\', 't']
  else if c.toNat < 0x20 then '\\' :: 'u' :: Text.hexDigits 4 c.toNat
  else [c]

def writtenText (s : String) : String :=
  String.ofList ('"' :: s.toList.flatMap writtenChar ++ ['"'])

def newLine (depth : Nat) : String :=
  String.ofList ('\n' :: List.replicate (2 * depth) ' ')

mutual

/-- A value whose first line stands at a depth. -/
def writeAt (depth : Nat) : Value → String
  | .null => "null"
  | .bool b => if b then "true" else "false"
  | .int n => toString n
  | .real x => x.format Binary64.fileFormat
  | .text s => writtenText s
  | .list items =>
    if items.isEmpty then "[]" else "[" ++ writeItems (depth + 1) items ++ newLine depth ++ "]"
  | .mapping members =>
    if members.isEmpty then "\x7b\x7d"
    else "\x7b" ++ writeMembers (depth + 1) members ++ newLine depth ++ "\x7d"

def writeItems (depth : Nat) : List Value → String
  | [] => ""
  | [v] => newLine depth ++ writeAt depth v
  | v :: rest => newLine depth ++ writeAt depth v ++ "," ++ writeItems depth rest

/-- The members of a mapping, each on a line of its own. -/
def writeMembers (depth : Nat) : List (String × Value) → String
  | [] => ""
  | [(k, v)] => newLine depth ++ writtenText k ++ ": " ++ writeAt depth v
  | (k, v) :: rest =>
    newLine depth ++ writtenText k ++ ": " ++ writeAt depth v ++ "," ++ writeMembers depth rest

end

def write (v : Value) : String :=
  writeAt 0 v

end RouteDocs.Json
