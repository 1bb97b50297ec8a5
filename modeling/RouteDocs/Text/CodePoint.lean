import RouteDocs.Text.Blank

/-!
# Code points

A code point is a character, or one of the 2048 halves that stand for a
character in pairs only. An escape in a text can name a half on its own; a
wide text holds characters and such halves.

Results:
* `chars?_ofChars`: a text read as a wide text is read back.
-/
namespace RouteDocs.Text

/-- A character, or a half by its distance from the first. -/
inductive CodePoint where
  | char (c : Char)
  | half (n : Fin 0x800)
  deriving DecidableEq

/-- A text that may hold halves. -/
abbrev WideText := List CodePoint

namespace CodePoint

def firstHalf : Nat := 0xd800

def ofNat? (n : Nat) : Option CodePoint :=
  if firstHalf ≤ n ∧ n < firstHalf + 0x800 then some (.half (Fin.ofNat 0x800 (n - firstHalf)))
  else if n < 0x110000 then some (.char (Char.ofNat n))
  else none

def char? : CodePoint → Option Char
  | char c => some c
  | half _ => none

def isCharOf (test : Char → Bool) : CodePoint → Bool
  | char c => test c
  | half _ => false

end CodePoint

namespace WideText

def ofChars (s : List Char) : WideText := s.map .char

def ofString (s : String) : WideText := ofChars s.toList

def chars? (s : WideText) : Option (List Char) := s.mapM CodePoint.char?

def string? (s : WideText) : Option String := s.chars?.map String.ofList

/-- A wide text without the blanks at either end. -/
def trim (s : WideText) : WideText :=
  trimWith (CodePoint.isCharOf isBlank) s

/-- The words of a wide text, in order; none is empty. -/
def words (s : WideText) : List WideText :=
  piecesFrom (CodePoint.isCharOf isBlank) [] s

theorem chars?_ofChars (s : List Char) : chars? (ofChars s) = some s := by
  unfold chars? ofChars
  induction s with
  | nil => rfl
  | cons c rest ih => simp_all [CodePoint.char?]

theorem string?_ofString (s : String) : string? (ofString s) = some s := by
  simp [string?, ofString, chars?_ofChars]

end WideText
end RouteDocs.Text
