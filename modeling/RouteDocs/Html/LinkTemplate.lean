import RouteDocs.Html.LinkTemplate.Part
import RouteDocs.Text.Digit

/-!
# Link templates

The address of a linked module is made from a template in which a placeholder
in braces stands for the module's name. Double braces are braces. A
placeholder may pick a part by its index or name, may ask for the quoted form
(`!r`, `!a`), and may give a format after a colon: a fill character with a
side (`<`, `>`, `^`), a least width, and after a point a greatest length. A
format may itself hold placeholders, one level deep. Numbers are written in the
digits of any script and are less than 2^63.
-/
namespace RouteDocs.Html

/-- How a text is put into a field. -/
structure FieldFormat where
  fill : Char
  side : Char
  width : Nat
  limit : Option Nat
  deriving DecidableEq

namespace LinkTemplate

def isSide (c : Char) : Bool :=
  c == '<' || c == '>' || c == '=' || c == '^'

def greatest : Nat := Nat.pow 2 63 - 1

/-- The number that the digits at the head of a text add to, after a number, and what follows. -/
def numberFrom (n : Nat) : List Char → Except Fault (Nat × List Char)
  | [] => .ok (n, [])
  | c :: rest =>
    match Text.digitValue? c with
    | some d => if greatest < n * 10 + d then refuse .form else numberFrom (n * 10 + d) rest
    | none => .ok (n, c :: rest)

/-- The number at the head of a text, if a digit stands there, and what follows it. -/
def number (s : List Char) : Except Fault (Option Nat × List Char) :=
  (numberFrom 0 s).map fun (n, rest) =>
    (if rest.length = s.length then none else some n, rest)

/-- The number that a text is, if it is digits alone. -/
def wholeNumber (s : List Char) : Except Fault (Option Nat) :=
  (number s).map fun (n, rest) => if rest.isEmpty then n else none

/-- The fill character and the side at the head of a format. -/
def readSide : List Char → Option Char × Option Char × List Char
  | c :: d :: rest =>
    if isSide d then (some c, some d, rest)
    else if isSide c then (none, some c, d :: rest)
    else (none, none, c :: d :: rest)
  | [c] => if isSide c then (none, some c, []) else (none, none, [c])
  | [] => (none, none, [])

def readLimit : List Char → Except Fault (Option Nat × List Char)
  | '.' :: rest => do
    match ← number rest with
    | (some n, rest) => return (some n, rest)
    | (none, _) => refuse .form
  | s => .ok (none, s)

/-- Read a format. Signs, separators and the forms of numbers do not fit a text. -/
def readFormat (s : List Char) : Except Fault FieldFormat := do
  let (fill, side, s) := readSide s
  let (zero, s) := match fill, s with
    | none, '0' :: rest => (true, rest)
    | _, s => (false, s)
  let (width, s) ← number s
  let (limit, s) ← readLimit s
  if s ≠ [] ∧ s ≠ ['s'] then refuse .form
  if side = some '=' then refuse .form
  return {
    fill := fill.getD (if zero then '0' else ' ')
    side := side.getD '<'
    width := width.getD 0
    limit := limit }

/-- The greatest width that a field can be filled up to. -/
def maxWidth : Nat := 1000000000

/-- A text put into a field. -/
def applyFormat (f : FieldFormat) (s : List Char) : Except Fault (List Char) :=
  let s := match f.limit with
    | some n => s.take n
    | none => s
  let missing := f.width - s.length
  let left := if f.side = '>' then missing else if f.side = '^' then missing / 2 else 0
  if maxWidth < f.width ∧ missing ≠ 0 then refuse .width
  else .ok (List.replicate left f.fill ++ s ++ List.replicate (missing - left) f.fill)

/-- A part put into a field. Only a text takes a format. -/
def formatted (format : List Char) : Part → Except Fault (List Char)
  | .text s => if format.isEmpty then .ok s else do applyFormat (← readFormat format) s
  | p => if format.isEmpty then .ok p.shown else refuse .unformatted

/-! ## Cutting a template -/

/-- A placeholder as it stands in a template. -/
structure Field where
  name : List Char
  conversion : Option Char
  format : List Char
  deriving DecidableEq

/-- The characters of a field name up to a brace, colon or exclamation mark; what stands in
brackets is passed over. The character that ended the name, and what follows it. -/
def fieldName (inIndex : Bool) : List Char → Except Fault (List Char × Char × List Char)
  | [] => refuse .form
  | c :: rest =>
    if inIndex then
      (fieldName (c ≠ ']') rest).map fun (n, r) => (c :: n, r)
    else if c = '{' then refuse .form
    else if c = '}' ∨ c = ':' ∨ c = '!' then .ok ([], c, rest)
    else (fieldName (c = '[') rest).map fun (n, r) => (c :: n, r)

/-- A format up to the brace that closes its field; `depth` braces are open in it. -/
def fieldFormat (depth : Nat) : List Char → Except Fault (List Char × List Char)
  | [] => refuse .form
  | c :: rest =>
    if c = '{' then (fieldFormat (depth + 1) rest).map fun (f, r) => (c :: f, r)
    else if c = '}' then
      match depth with
      | 0 => .ok ([], rest)
      | depth + 1 => (fieldFormat depth rest).map fun (f, r) => (c :: f, r)
    else (fieldFormat depth rest).map fun (f, r) => (c :: f, r)

/-- A field after its opening brace, and what follows it. -/
def readField (s : List Char) : Except Fault (Field × List Char) := do
  let (name, stop, rest) ← fieldName false s
  if stop = '}' then return (⟨name, none, []⟩, rest)
  else if stop = ':' then
    let (format, rest) ← fieldFormat 0 rest
    return (⟨name, none, format⟩, rest)
  else
    match rest with
    | c :: '}' :: rest => return (⟨name, some c, []⟩, rest)
    | c :: ':' :: rest =>
      let (format, rest) ← fieldFormat 0 rest
      return (⟨name, some c, format⟩, rest)
    | _ => refuse .form

/-- The part that indexes and names pick out of a part, one after the other. -/
def pick : Nat → Part → List Char → Except Fault Part
  | _, p, [] => .ok p
  | 0, _, _ => refuse .form
  | fuel + 1, p, '[' :: rest => do
    let index := rest.takeWhile (· ≠ ']')
    match rest.drop index.length with
    | [] => refuse .form
    | _ :: after =>
      let i ← wholeNumber index
      if index.isEmpty then refuse .form
      match i with
      | some i => pick fuel (← p.item i) after
      | none => refuse .index
  | fuel + 1, p, '.' :: rest =>
    let name := rest.takeWhile fun c => c ≠ '.' ∧ c ≠ '['
    if name.isEmpty then refuse .form
    else
      match p.named? (String.ofList name) with
      | some p => pick fuel p (rest.drop name.length)
      | none => refuse .part
  | _, _, _ => refuse .form

/-- The part of a target that a field name stands for. There are no numbered targets. -/
def resolve (target name : List Char) : Except Fault Part := do
  let first := name.takeWhile fun c => c ≠ '.' ∧ c ≠ '['
  if first.isEmpty || (← wholeNumber first).isSome then refuse .position
  if first ≠ "target".toList then refuse .name
  pick name.length (.text target) (name.drop first.length)

def convert (conversion : Option Char) (p : Part) : Except Fault Part :=
  match conversion with
  | none => .ok p
  | some 's' => .ok (.text p.shown)
  | some 'r' => .ok (.text (p.quoted Text.isPrintable))
  | some 'a' => .ok (.text (p.quoted fun c => Text.isPrintable c && c.toNat < 0x80))
  | some _ => refuse .form

/-- Fill in a template. `fuel` bounds the number of characters and fields, `depth` the number of
formats around it. -/
def fillWithin (target : List Char) : Nat → Nat → List Char → Except Fault (List Char)
  | _, _, [] => .ok []
  | 0, _, _ => refuse .form
  | _, 0, _ => refuse .form
  | fuel + 1, depth + 1, c :: rest =>
    if c = '{' then
      match rest with
      | '{' :: rest => (fillWithin target fuel (depth + 1) rest).map ('{' :: ·)
      | _ => do
        let (field, rest) ← readField rest
        let value ← convert field.conversion (← resolve target field.name)
        let format ←
          if field.format.contains '{' then fillWithin target fuel depth field.format
          else .ok field.format
        let shown ← formatted format value
        (fillWithin target fuel (depth + 1) rest).map (shown ++ ·)
    else if c = '}' then
      match rest with
      | '}' :: rest => (fillWithin target fuel (depth + 1) rest).map ('}' :: ·)
      | _ => refuse .form
    else (fillWithin target fuel (depth + 1) rest).map (c :: ·)

def fill (template target : String) : Except Fault String :=
  (fillWithin target.toList template.length 2 template.toList).map String.ofList

end LinkTemplate
end RouteDocs.Html
