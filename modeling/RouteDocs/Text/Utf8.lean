/-!
# Characters of a file

A file is read as the characters of its UTF-8 text. A byte that belongs to no
character is kept as a broken symbol, because it matters where it stands.

Results:
* `textOfSymbols?_map`: symbols made of characters have the text of these.
-/
namespace RouteDocs.Text

/-- A character of a file, or a byte that belongs to none. -/
inductive Symbol where
  | char (c : Char)
  | broken
  deriving DecidableEq

/-- The payload of a continuation byte. -/
def continuation? (b : UInt8) : Option Nat :=
  if 0x80 ≤ b ∧ b < 0xc0 then some (b.toNat % 0x40) else none

/-- The character with a code point that needs at least `least` to be written at this length. -/
def scalar? (least n : Nat) : Option Char :=
  if least ≤ n ∧ n < 0x110000 ∧ ¬(0xd800 ≤ n ∧ n < 0xe000) then some (Char.ofNat n) else none

/-- The character that starts with a byte, with the number of further bytes it takes. -/
def character? (a : UInt8) (rest : List UInt8) : Option (Char × Nat) :=
  if a < 0x80 then some (Char.ofNat a.toNat, 0)
  else if a < 0xc0 then none
  else if a < 0xe0 then do
    let b ← continuation? (← rest[0]?)
    (·, 1) <$> scalar? 0x80 (a.toNat % 0x20 * 0x40 + b)
  else if a < 0xf0 then do
    let b ← continuation? (← rest[0]?)
    let c ← continuation? (← rest[1]?)
    (·, 2) <$> scalar? 0x800 ((a.toNat % 0x10 * 0x40 + b) * 0x40 + c)
  else if a < 0xf8 then do
    let b ← continuation? (← rest[0]?)
    let c ← continuation? (← rest[1]?)
    let d ← continuation? (← rest[2]?)
    (·, 3) <$> scalar? 0x10000 (((a.toNat % 0x08 * 0x40 + b) * 0x40 + c) * 0x40 + d)
  else none

/-- The characters of a file; the first `skip` bytes belong to the character before. -/
def symbolsFrom : Nat → List UInt8 → List Symbol
  | _, [] => []
  | skip + 1, _ :: rest => symbolsFrom skip rest
  | 0, a :: rest =>
    match character? a rest with
    | some (c, more) => .char c :: symbolsFrom more rest
    | none => .broken :: symbolsFrom 0 rest

/-- The characters of a file. -/
def symbolsOfBytes (bytes : List UInt8) : List Symbol :=
  symbolsFrom 0 bytes

def symbols (s : String) : List Symbol :=
  s.toList.map .char

/-- The text of characters none of which is broken. -/
def textOfSymbols? : List Symbol → Option (List Char)
  | [] => some []
  | .broken :: _ => none
  | .char c :: rest => (textOfSymbols? rest).map (c :: ·)

theorem textOfSymbols?_map (s : List Char) : textOfSymbols? (s.map .char) = some s := by
  induction s with
  | nil => rfl
  | cons c rest ih => simp [textOfSymbols?, ih]

end RouteDocs.Text
