import RouteDocs.Number.Arithmetic
import RouteDocs.Text.Base64
import RouteDocs.Text.Letter
import RouteDocs.Yaml.Schema

/-!
# Values of scalars

What the text of a scalar stands for, given the type that its node has. A type
that a tag gives may not fit the text.
-/
namespace RouteDocs.Yaml.Typed

open Text (WideText)

/-- The characters of a number: without underscores, and none if it holds a half. -/
def numberChars? (s : WideText) : Option (List Char) :=
  s.chars?.map fun chars => chars.filter (· ≠ '_')

/-- A number, or the lack of one. -/
def found {α : Type} : Option α → Except YamlProblem α
  | some a => .ok a
  | none => .error .noSuchValue

/-! ## Booleans -/

/-- The boolean that a word stands for, in any case. -/
def bool (s : WideText) : Except YamlProblem Setting :=
  let word := s.chars?.map fun chars => String.ofList (Text.lowerAll chars)
  match word with
  | none => .error .notABoolean
  | some w =>
    if ["yes", "y", "true", "on"].contains w then .ok (.bool true)
    else if ["no", "n", "false", "off"].contains w then .ok (.bool false)
    else .error .notABoolean

/-! ## Integers -/

/-- The number that its parts stand for, each worth sixty times the next. -/
def ofSixties (parts : List Int) : Int :=
  parts.foldl (fun n d => n * 60 + d) 0

/-- The integer that digits stand for after their sign. In the older version of the format a zero
starts an octal number, and colons part a number to the base sixty. -/
def unsignedInteger (v : Version) (s : List Char) : Except YamlProblem Int :=
  match s with
  | '0' :: 'b' :: rest => found (Numeral.integer? 2 rest)
  | '0' :: 'x' :: rest => found (Numeral.integer? 16 rest)
  | '0' :: 'o' :: rest => found (Numeral.integer? 8 rest)
  | s =>
    if s = ['0'] then .ok 0
    else if v = .older then
      match s with
      | [] => .error .emptyNumber
      | '0' :: _ => found (Numeral.integer? 8 s)
      | _ =>
        if s.contains ':' then
          (((s.splitOn ':').mapM fun part => found (Numeral.integer? 10 part))).map ofSixties
        else found (Numeral.integer? 10 s)
    else found (Numeral.integer? 10 s)

def integer (v : Version) (s : WideText) : Except YamlProblem Setting :=
  match numberChars? s with
  | none => .error .noSuchValue
  | some [] => .error .emptyNumber
  | some chars =>
    let (negative, body) := Numeral.splitSign chars
    (unsignedInteger v body).map fun n => .int (if negative then -n else n)

/-! ## Reals -/

/-- The sum of parts, the last as it is and each before it sixty times the one after it, added
from the last on. -/
def realOfSixties (parts : List Binary64) : Except YamlProblem Binary64 := do
  let (sum, _) ← parts.reverse.foldlM (fun ((sum, base) : Binary64 × Int) x =>
    match Binary64.ofInt base with
    | .infinite _ => .error .tooGreat
    | b => .ok (sum.plus (x.times b), base * 60)) (Binary64.zero, 1)
  return sum

/-- The real that a text stands for after its sign. -/
def unsignedReal (v : Version) (s : List Char) : Except YamlProblem Binary64 :=
  if s = ".inf".toList then .ok (.infinite false)
  else if s = ".nan".toList then .ok .notANumber
  else if v ≠ .newer ∧ s.contains ':' then do
    realOfSixties (← (s.splitOn ':').mapM fun part => found (Numeral.real? part))
  else found (Numeral.real? s)

def real (v : Version) (s : WideText) : Except YamlProblem Setting :=
  match (numberChars? s).map Text.lowerAll with
  | none => .error .noSuchValue
  | some [] => .error .emptyNumber
  | some chars =>
    let (negative, body) := Numeral.splitSign chars
    (unsignedReal v body).map fun x => .real (if negative then x.negated else x)

/-! ## All types -/

/-- The bytes that a text stands for, which is of ASCII characters. -/
def binary (s : WideText) : Except YamlProblem Setting :=
  match s.chars? with
  | none => .error .construction
  | some chars =>
    if chars.all fun c => c.toNat < 0x80 then
      match Text.Base64.decode? chars with
      | some bytes => .ok (.bytes bytes)
      | none => .error .construction
    else .error .construction

/-- The date or the moment that a text stands for. A line feed at its end does not count. -/
def timestamp (s : WideText) : Except YamlProblem Setting :=
  match s.chars?.bind fun chars => Timestamp.read? (Form.withoutLineFeed chars) with
  | some t => t.setting
  | none => .error .construction

/-- What a text stands for as a scalar of a type. No scalar is a collection. -/
def setting (v : Version) (t : CoreType) (s : WideText) : Except YamlProblem Setting :=
  match t with
  | .null => .ok .null
  | .bool => bool s
  | .int => integer v s
  | .float => real v s
  | .binary => binary s
  | .timestamp => timestamp s
  | .text => .ok (.text s)
  | _ => .error .construction

end RouteDocs.Yaml.Typed
