import RouteDocs.Yaml.Prologue
import RouteDocs.Yaml.Timestamp

/-!
# Types of nodes

The types that a node can have, by the names of their tags, and the type that
a plain scalar has by its form (`byForm`). The forms differ between the two
versions of the format.

Results:
* `ofName?_name`: a type is found by its name.
-/
namespace RouteDocs.Yaml

open Text (WideText)

/-- A type of nodes that has a meaning of its own. -/
inductive CoreType where
  | null
  | bool
  | int
  | float
  | binary
  | timestamp
  | ordered
  | pairs
  | set
  | text
  | list
  | mapping
  deriving DecidableEq

/-- What a node is: of a type, the key of a merge, the key of a default, or nothing known. -/
inductive NodeKind where
  | core (t : CoreType)
  | merge
  | default
  | unknown
  deriving DecidableEq

namespace CoreType

def all : List CoreType :=
  [null, bool, int, float, binary, timestamp, ordered, pairs, set, text, list, mapping]

def name : CoreType → String
  | null => "null"
  | bool => "bool"
  | int => "int"
  | float => "float"
  | binary => "binary"
  | timestamp => "timestamp"
  | ordered => "omap"
  | pairs => "pairs"
  | set => "set"
  | text => "str"
  | list => "seq"
  | mapping => "map"

def ofName? (s : String) : Option CoreType :=
  all.find? fun t => t.name = s

theorem ofName?_name (t : CoreType) : ofName? t.name = some t := by
  cases t <;> decide

end CoreType

namespace NodeKind

def tagStart : String := "tag:yaml.org,2002:"

def ofTag (tag : String) : NodeKind :=
  if tagStart.toList.isPrefixOf tag.toList then
    let name := String.ofList (tag.toList.drop tagStart.length)
    match CoreType.ofName? name with
    | some t => .core t
    | none => if name = "merge" then .merge else if name = "value" then .default else .unknown
  else .unknown

end NodeKind

/-! ## Forms of plain scalars -/

namespace Form

def isDigitMark (c : Char) : Bool :=
  c.isDigit || c == '_'

def isMarkOf (base : Nat) (c : Char) : Bool :=
  c == '_' || (Json.hexValue? c).any (· < base)

/-- Whether a text is one or more characters that satisfy a test. -/
def isRun (test : Char → Bool) (s : List Char) : Bool :=
  !s.isEmpty && s.all test

/-- Whether a boolean has this form. -/
def isBool (v : Version) (s : String) : Bool :=
  ["true", "True", "TRUE", "false", "False", "FALSE"].contains s ||
    (v == .older && ["y", "Y", "yes", "Yes", "YES", "n", "N", "no", "No", "NO", "on", "On", "ON",
      "off", "Off", "OFF"].contains s)

/-- Whether an exponent makes up a text. It may have to have a sign. -/
def isExponent (signed : Bool) : List Char → Bool
  | [] => false
  | e :: rest =>
    let digits := (Numeral.splitSign rest).2
    (e == 'e' || e == 'E') && isRun Char.isDigit digits && (!signed || digits.length < rest.length)

/-- What follows the numbers below sixty at the head of a text, each after a colon, if there is
one. -/
def afterSixties? : Nat → List Char → Option (List Char)
  | 0, _ => none
  | fuel + 1, s =>
    match s with
    | ':' :: rest =>
      let digits := rest.takeWhile Char.isDigit
      let fits := match digits with
        | [_] => true
        | [a, _] => a ≤ '5'
        | _ => false
      if !fits then none
      else
        let rest := rest.drop digits.length
        some ((afterSixties? fuel rest).getD rest)
    | _ => none

/-- Whether a fraction and an exponent, or one of them, make up what follows the whole part of a
number. -/
def isRealTail : List Char → Bool
  | '.' :: rest =>
    let rest := rest.dropWhile isDigitMark
    rest.isEmpty || isExponent false rest
  | s => isExponent false s

/-- Whether numbers below sixty and a fraction make up a text. -/
def isSixtiesTail (s : List Char) : Bool :=
  match afterSixties? s.length s with
  | some ('.' :: rest) => rest.all isDigitMark
  | _ => false

def isReal (v : Version) (s : List Char) : Bool :=
  let (_, body) := Numeral.splitSign s
  let isBare := body.length == s.length
  if [".nan", ".NaN", ".NAN"].contains (String.ofList s) then true
  else if [".inf", ".Inf", ".INF"].contains (String.ofList body) then true
  else
    match body with
    | '.' :: rest =>
      let fraction := rest.takeWhile isDigitMark
      let tail := rest.drop fraction.length
      !fraction.isEmpty && (tail.isEmpty || isExponent true tail) && (v != .older || isBare)
    | c :: _ =>
      let tail := body.dropWhile isDigitMark
      c.isDigit && (isRealTail tail || (v == .older && isSixtiesTail tail))
    | [] => false

def isIntegerBody (v : Version) (body : List Char) : Bool :=
  match body with
  | '0' :: 'b' :: rest => isRun (isMarkOf 2) rest
  | '0' :: 'x' :: rest => isRun (isMarkOf 16) rest
  | '0' :: 'o' :: rest => v != .older && isRun (isMarkOf 8) rest
  | s =>
    if v == .older then
      isRun (isMarkOf 8) s ||
        (s.head?.any (fun c => c.isDigit && c ≠ '0') &&
          (s.all isDigitMark ||
            afterSixties? s.length (s.dropWhile isDigitMark) == some []))
    else isRun isDigitMark s

def isInteger (v : Version) (s : List Char) : Bool :=
  s.head? ≠ some '_' && isIntegerBody v (Numeral.splitSign s).2

def isTimestamp (s : List Char) : Bool :=
  (Timestamp.read? s).any Timestamp.isPlain

def isNull (s : String) : Bool :=
  ["", "~", "null", "Null", "NULL"].contains s

def withoutLineFeed (s : List Char) : List Char :=
  if s.getLast? = some '\n' ∧ s.length ≠ 1 then s.dropLast else s

/-- What a scalar is by its form. A line feed at its end does not count. -/
def kindOf (v : Version) (text : List Char) : NodeKind :=
  let chars := withoutLineFeed text
  let s := String.ofList chars
  if isBool v s then .core .bool
  else if isReal v chars then .core .float
  else if isInteger v chars then .core .int
  else if s = "<<" then .merge
  else if isNull s then .core .null
  else if isTimestamp chars then .core .timestamp
  else if s = "=" then .default
  else if s = "!" ∨ s = "&" ∨ s = "*" then .unknown
  else .core .text

/-- What a scalar is by its form; one that holds a half is a text. -/
def kind (v : Version) (s : WideText) : NodeKind :=
  match s.chars? with
  | some chars => kindOf v chars
  | none => .core .text

end Form
end RouteDocs.Yaml
