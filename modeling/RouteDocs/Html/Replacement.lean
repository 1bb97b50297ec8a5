import RouteDocs.Fault
import RouteDocs.Number.Numeral
import RouteDocs.Text.Name

/-!
# Replacement templates

What stands for a match is given by a template. A backslash has a meaning in
it: `\\` is a backslash, `\a \b \f \n \r \t \v` are controls, a zero or three
octal digits are a character by its number, and `\g<0>` is the match itself.
Before any other ASCII letter or digit a backslash is refused; before anything
else it stands for itself.
-/
namespace RouteDocs.Html

/-- A part of a template: a character, or the match. -/
inductive ReplacementPart where
  | char (c : Char)
  | whole
  deriving DecidableEq

namespace Replacement

/-- The value of an octal digit. -/
def octal? (c : Char) : Option Nat :=
  if '0' ≤ c ∧ c ≤ '7' then some (c.toNat - 0x30) else none

/-- The control that a letter after a backslash stands for. -/
def control? : Char → Option Char
  | 'a' => some (Char.ofNat 0x07)
  | 'b' => some (Char.ofNat 0x08)
  | 'f' => some (Char.ofNat 0x0c)
  | 'n' => some '\n'
  | 'r' => some '\r'
  | 't' => some '\t'
  | 'v' => some (Char.ofNat 0x0b)
  | '\\' => some '\\'
  | _ => none

/-- At most two further octal digits after a zero: the number, and how many were taken. -/
def octalTail : List Char → Nat × Nat
  | a :: b :: _ =>
    match octal? a, octal? b with
    | some m, some n => (m * 8 + n, 2)
    | some m, none => (m, 1)
    | none, _ => (0, 0)
  | [a] =>
    match octal? a with
    | some m => (m, 1)
    | none => (0, 0)
  | [] => (0, 0)

/-- The character of exactly three octal digits, the first of them not zero. -/
def octalTriple? (a : Char) : List Char → Option Char
  | b :: c :: _ => do
    let n := ((← octal? a) * 8 + (← octal? b)) * 8 + (← octal? c)
    if n < 0x100 then some (Char.ofNat n) else none
  | _ => none

/-- The group that a word refers to. There are no named groups, so a name finds none; a number finds
the whole match if it is zero. -/
def group (word : List Char) : Except Fault ReplacementPart :=
  if Text.isName word then .error .replacementGroup
  else
    match Numeral.integer? 10 word with
    | some 0 => .ok .whole
    | _ => .error .replacementTemplate

/-- What a template says next, and how many further characters that takes. -/
def part (c : Char) (rest : List Char) : Except Fault (List ReplacementPart × Nat) :=
  if c ≠ '\\' then .ok ([.char c], 0)
  else
    match rest with
    | [] => .error .replacementTemplate
    | 'g' :: '<' :: more =>
      let name := more.takeWhile (· ≠ '>')
      if name.isEmpty || name.length = more.length then .error .replacementTemplate
      else (group name).map fun p => ([p], name.length + 3)
    | '0' :: more =>
      let (n, taken) := octalTail more
      .ok ([.char (Char.ofNat n)], taken + 1)
    | d :: more =>
      if d.isDigit then
        match octalTriple? d more with
        | some x => .ok ([.char x], 3)
        | none => .error .replacementTemplate
      else
        match control? d with
        | some x => .ok ([.char x], 1)
        | none =>
          if d.isAlpha then .error .replacementTemplate else .ok ([.char '\\', .char d], 1)

/-- The parts of a template; the first `skip` characters belong to the part before. -/
def partsFrom : Nat → List Char → Except Fault (List ReplacementPart)
  | _, [] => .ok []
  | skip + 1, _ :: rest => partsFrom skip rest
  | 0, c :: rest =>
    match part c rest with
    | .error f => .error f
    | .ok (ps, more) => (partsFrom more rest).map (ps ++ ·)

def parts (template : List Char) : Except Fault (List ReplacementPart) :=
  partsFrom 0 template

/-- What the parts say for a match. -/
def fill (found : List Char) (ps : List ReplacementPart) : List Char :=
  ps.flatMap fun
    | .char c => [c]
    | .whole => found

/-- A text in which the parts stand in place of the first match of `found`. -/
def replaceFirst (found : List Char) (ps : List ReplacementPart) : List Char → List Char
  | [] => if found.isEmpty then fill found ps else []
  | c :: rest =>
    if found.isPrefixOf (c :: rest) then fill found ps ++ (c :: rest).drop found.length
    else c :: replaceFirst found ps rest

end Replacement
end RouteDocs.Html
