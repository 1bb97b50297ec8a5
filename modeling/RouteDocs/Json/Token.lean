import RouteDocs.Text.Utf8
import RouteDocs.Value

/-!
# Tokens of a JSON text

`tokens` cuts a text into its tokens. It stops at the first place where no
token can stand and marks it with `bad`, so that what stands before it can
still be judged. A quoted text with a broken symbol is a token; whether it may
be used is for the reader to decide.
-/
namespace RouteDocs.Json

open Text (Symbol)

inductive Token where
  | openList
  | closeList
  | openMapping
  | closeMapping
  | comma
  | colon
  | null
  | bool (b : Bool)
  | int (n : Int)
  /-- A number with a fraction or an exponent; infinite if it is too great for a double. -/
  | real (x : Binary64)
  /-- A quoted text; none if it is not all characters. -/
  | text (s : Option String)
  | bad
  deriving DecidableEq

/-! ## Quoted texts -/

/-- The value of a hexadecimal digit. -/
def hexValue? (c : Char) : Option Nat :=
  if '0' ≤ c ∧ c ≤ '9' then some (c.toNat - 0x30)
  else if 'a' ≤ c ∧ c ≤ 'f' then some (c.toNat - 0x57)
  else if 'A' ≤ c ∧ c ≤ 'F' then some (c.toNat - 0x37)
  else none

/-- A number of four hexadecimal digits, and what follows. -/
def hex4? : List Symbol → Option (Nat × List Symbol)
  | .char a :: .char b :: .char c :: .char d :: rest =>
    match hexValue? a, hexValue? b, hexValue? c, hexValue? d with
    | some a, some b, some c, some d => some (((a * 16 + b) * 16 + c) * 16 + d, rest)
    | _, _, _, _ => none
  | _ => none

/-- The first half of a pair. -/
def isHighHalf (n : Nat) : Bool := 0xd800 ≤ n && n < 0xdc00

/-- The second half of a pair. -/
def isLowHalf (n : Nat) : Bool := 0xdc00 ≤ n && n < 0xe000

/-- The character that two halves stand for. -/
def joinHalves (high low : Nat) : Char :=
  Char.ofNat (0x10000 + (high - 0xd800) * 0x400 + (low - 0xdc00))

/-- A character by its code point, or by two halves, after the letter u. -/
def codePoint? (s : List Symbol) : Option (Char × List Symbol) :=
  match hex4? s with
  | none => none
  | some (n, rest) =>
    if isHighHalf n then
      match rest with
      | .char '\\' :: .char 'u' :: rest₁ =>
        match hex4? rest₁ with
        | some (m, rest₂) => if isLowHalf m then some (joinHalves n m, rest₂) else none
        | none => none
      | _ => none
    else if isLowHalf n then none
    else some (Char.ofNat n, rest)

/-- The character that a letter after the backslash stands for. -/
def shortEscape? : Char → Option Char
  | '"' => some '"'
  | '\\' => some '\\'
  | '/' => some '/'
  | 'b' => some (Char.ofNat 0x08)
  | 'f' => some (Char.ofNat 0x0c)
  | 'n' => some '\n'
  | 'r' => some '\r'
  | 't' => some '\t'
  | _ => none

/-- What stands after a backslash. -/
def escape? : List Symbol → Option (Char × List Symbol)
  | .char 'u' :: rest => codePoint? rest
  | .char c :: rest => (shortEscape? c).map (·, rest)
  | _ => none

theorem length_of_hex4? {s rest : List Symbol} {n : Nat} (h : hex4? s = some (n, rest)) :
    rest.length < s.length := by
  unfold hex4? at h
  split at h
  · split at h
    · simp only [Option.some.injEq, Prod.mk.injEq] at h
      obtain ⟨-, rfl⟩ := h
      simp only [List.length_cons]
      omega
    · simp at h
  · simp at h

theorem length_of_codePoint? {s rest : List Symbol} {c : Char} (h : codePoint? s = some (c, rest)) :
    rest.length < s.length := by
  unfold codePoint? at h
  split at h
  · simp at h
  · next n r hr =>
    have := length_of_hex4? hr
    split at h
    · split at h
      · next r₁ =>
        split at h
        · next m r₂ hm =>
          have := length_of_hex4? hm
          split at h
          · simp only [Option.some.injEq, Prod.mk.injEq] at h
            obtain ⟨-, rfl⟩ := h
            simp only [List.length_cons] at *
            omega
          · simp at h
        · simp at h
      · simp at h
    · split at h
      · simp at h
      · simp only [Option.some.injEq, Prod.mk.injEq] at h
        obtain ⟨-, rfl⟩ := h
        exact this

theorem length_of_escape? {s rest : List Symbol} {c : Char} (h : escape? s = some (c, rest)) :
    rest.length < s.length := by
  unfold escape? at h
  split at h
  · have := length_of_codePoint? h
    simp only [List.length_cons]
    omega
  · obtain ⟨a, -, ha⟩ := Option.map_eq_some_iff.1 h
    simp only [Prod.mk.injEq] at ha
    obtain ⟨-, rfl⟩ := ha
    simp
  · simp at h

/-- The rest of a quoted text up to its closing quote, and what follows. -/
def readText (s : List Symbol) : Option (List Symbol × List Symbol) :=
  match s with
  | [] => none
  | .char c :: rest =>
    if c = '"' then some ([], rest)
    else if c = '\\' then
      match _h : escape? rest with
      | none => none
      | some (x, rest₁) => (readText rest₁).map fun (t, r) => (.char x :: t, r)
    else if c.toNat < 0x20 then none
    else (readText rest).map fun (t, r) => (.char c :: t, r)
  | .broken :: rest => (readText rest).map fun (t, r) => (.broken :: t, r)
termination_by s.length
decreasing_by
  · have := length_of_escape? _h
    simp only [List.length_cons]
    omega
  · simp
  · simp

/-! ## Numbers -/

/-- The digits at the head of a text, as a number with their count, and what follows. -/
def readDigits (value count : Nat) : List Symbol → Nat × Nat × List Symbol
  | .char c :: rest =>
    if c.isDigit then readDigits (value * 10 + (c.toNat - 0x30)) (count + 1) rest
    else (value, count, .char c :: rest)
  | s => (value, count, s)

/-- The exponent of a number: zero if there is none. -/
def readExponent? : List Symbol → Option (Option Int × List Symbol)
  | .char c :: rest =>
    if c = 'e' ∨ c = 'E' then
      let (negative, digits) := match rest with
        | .char '-' :: rest => (true, rest)
        | .char '+' :: rest => (false, rest)
        | rest => (false, rest)
      let (n, count, rest₁) := readDigits 0 0 digits
      if count = 0 then none else some (some (if negative then -(n : Int) else n), rest₁)
    else some (none, .char c :: rest)
  | s => some (none, s)

/-- The digits after the point of a number, added to those before it. -/
def readFraction? (whole : Nat) : List Symbol → Option (Option (Nat × Nat) × List Symbol)
  | .char c :: rest =>
    if c = '.' then
      let (n, count, rest₁) := readDigits whole 0 rest
      if count = 0 then none else some (some (n, count), rest₁)
    else some (none, .char c :: rest)
  | s => some (none, s)

/-- The digits before the point: a single zero, or digits that start with no zero. -/
def readWhole? (s : List Symbol) : Option (Nat × List Symbol) :=
  match s with
  | .char '0' :: rest =>
    match rest with
    | .char c :: _ => if c.isDigit then none else some (0, rest)
    | _ => some (0, rest)
  | _ =>
    let (n, count, rest) := readDigits 0 0 s
    if count = 0 then none else some (n, rest)

/-- A number: an integer, or a double if it has a fraction or an exponent. -/
def readNumber? (negative : Bool) (s : List Symbol) : Option (Token × List Symbol) := do
  let (whole, rest) ← readWhole? s
  let (fraction, rest) ← readFraction? whole rest
  let (exponent, rest) ← readExponent? rest
  match fraction, exponent with
  | none, none => some (.int (if negative then -(whole : Int) else whole), rest)
  | _, _ =>
    let (digits, places) := fraction.getD (whole, 0)
    some (.real (Binary64.ofDecimal negative digits (exponent.getD 0 - places)), rest)

/-! ## Cutting a text -/

/-- What follows a word at the head of a text. -/
def dropWord? : List Char → List Symbol → Option (List Symbol)
  | [], rest => some rest
  | c :: word, .char d :: rest => if c = d then dropWord? word rest else none
  | _ :: _, _ => none

/-- White space between tokens. -/
def isSpace (c : Char) : Bool :=
  c == ' ' || c == '\t' || c == '\n' || c == '\r'

/-- The token that starts with a character, and what follows. -/
def readToken? (c : Char) (rest : List Symbol) : Option (Token × List Symbol) :=
  match c with
  | '[' => some (.openList, rest)
  | ']' => some (.closeList, rest)
  | '{' => some (.openMapping, rest)
  | '}' => some (.closeMapping, rest)
  | ',' => some (.comma, rest)
  | ':' => some (.colon, rest)
  | 'n' => (dropWord? ['u', 'l', 'l'] rest).map (.null, ·)
  | 't' => (dropWord? ['r', 'u', 'e'] rest).map (.bool true, ·)
  | 'f' => (dropWord? ['a', 'l', 's', 'e'] rest).map (.bool false, ·)
  | '"' => (readText rest).map fun (t, r) => (.text ((Text.textOfSymbols? t).map String.ofList), r)
  | '-' => readNumber? true rest
  | c => if c.isDigit then readNumber? false (.char c :: rest) else none

/-- The tokens of a text. Each takes at least one symbol, so the length of the text is enough. -/
def tokensWithin : Nat → List Symbol → List Token
  | _, [] => []
  | 0, _ => [.bad]
  | _, .broken :: _ => [.bad]
  | fuel + 1, .char c :: rest =>
    if isSpace c then tokensWithin fuel rest
    else
      match readToken? c rest with
      | some (t, rest₁) => t :: tokensWithin fuel rest₁
      | none => [.bad]

def tokens (s : List Symbol) : List Token :=
  tokensWithin s.length s

end RouteDocs.Json
