import RouteDocs.Number.Binary64
import RouteDocs.Text.Blank
import RouteDocs.Text.Digit

/-!
# Numerals

Numbers as they are written in a text: with blanks around them, a sign, digits
of any script and single underscores between digits. A numeral in a base that
is no power of two has at most 4300 digits, and no number is written with more.

Results:
* `digitOf?_lt`: a digit of a base is worth less than the base.
* `isWritable_iff`: which numbers can be written.
-/
namespace RouteDocs.Numeral

/-- A blank around a numeral. The information separators are none. -/
def isBlank (c : Char) : Bool :=
  Text.isBlank c && !(0x1c ≤ c.toNat && c.toNat ≤ 0x1f)

/-- A numeral without the blanks around it. -/
def trim (s : List Char) : List Char :=
  Text.trimWith isBlank s

/-- Whether a numeral is negative, and what follows its sign. -/
def splitSign : List Char → Bool × List Char
  | '-' :: rest => (true, rest)
  | '+' :: rest => (false, rest)
  | s => (false, s)

def signed (negative : Bool) (n : Nat) : Int :=
  if negative then -(n : Int) else n

/-! ## Integers -/

/-- What a letter is worth as a digit. -/
def letterValue? (c : Char) : Option Nat :=
  if 'a' ≤ c ∧ c ≤ 'z' then some (c.toNat - 0x57)
  else if 'A' ≤ c ∧ c ≤ 'Z' then some (c.toNat - 0x37)
  else none

def digitOf? (base : Nat) (c : Char) : Option Nat :=
  ((Text.digitValue? c).or (letterValue? c)).filter (· < base)

theorem digitOf?_lt {base n : Nat} {c : Char} (h : digitOf? base c = some n) : n < base := by
  have := (Option.filter_eq_some_iff.1 h).2
  simpa using this

/-- The number that digits stand for, and how many there are, after a number and so many digits.
An underscore stands between two digits. -/
def digitsFrom? (base : Nat) (afterDigit : Bool) (n count : Nat) : List Char → Option (Nat × Nat)
  | [] => if afterDigit then some (n, count) else none
  | c :: rest =>
    if c = '_' then
      if afterDigit then digitsFrom? base false n count rest else none
    else
      match digitOf? base c with
      | some d => digitsFrom? base true (n * base + d) (count + 1) rest
      | none => none

/-- The bases that are powers of two and have a letter of their own. -/
def baseOfLetter? (c : Char) : Option Nat :=
  if c = 'x' ∨ c = 'X' then some 16
  else if c = 'o' ∨ c = 'O' then some 8
  else if c = 'b' ∨ c = 'B' then some 2
  else none

/-- Digits without the mark of a base, after which an underscore may stand. -/
def dropMark (base : Nat) : List Char → List Char
  | '0' :: c :: rest =>
    if baseOfLetter? c = some base then
      match rest with
      | '_' :: rest => rest
      | rest => rest
    else '0' :: c :: rest
  | s => s

/-- The greatest number of digits of a numeral in a base that is no power of two. -/
def maxDigits : Nat := 4300

/-- Whether a number has few enough digits to be written as a decimal. A sign is not counted. -/
@[irreducible]
def isWritable (n : Int) : Bool :=
  n.natAbs < Nat.pow 10 maxDigits

theorem isWritable_iff {n : Int} : isWritable n = true ↔ n.natAbs < Nat.pow 10 maxDigits := by
  unfold isWritable
  exact decide_eq_true_iff

/-- The number that digits of a base stand for, after the mark that the base may have. -/
def natural? (base : Nat) (s : List Char) : Option Nat :=
  match digitsFrom? base false 0 0 (dropMark base s) with
  | none => none
  | some (n, count) =>
    if maxDigits < count ∧ base ≠ 2 ∧ base ≠ 8 ∧ base ≠ 16 then none else some n

/-- The integer that a numeral of a base stands for. -/
def integer? (base : Nat) (s : List Char) : Option Int :=
  let (negative, digits) := splitSign (trim s)
  (natural? base digits).map (signed negative)

/-- The integer that a numeral stands for whose mark tells its base. Without a mark it is a decimal
that starts with a zero only if it is zero. -/
def markedInteger? (s : List Char) : Option Int :=
  let (negative, digits) := splitSign (trim s)
  match digits with
  | '0' :: c :: _ =>
    match baseOfLetter? c with
    | some base => (natural? base digits).map (signed negative)
    | none => ((natural? 10 digits).filter (· = 0)).map (signed negative)
  | _ => (natural? 10 digits).map (signed negative)

/-! ## Reals -/

/-- A text with the digits of every script as ASCII digits. -/
def plainDigits (s : List Char) : List Char :=
  s.map fun c => match Text.digitValue? c with
    | some d => Char.ofNat (0x30 + d)
    | none => c

/-- A text without underscores, if each stands between two digits. -/
def dropMarks? (before : Option Char) : List Char → Option (List Char)
  | [] => if before = some '_' then none else some []
  | c :: rest =>
    if c = '_' then
      if before.any Char.isDigit then dropMarks? (some c) rest else none
    else if before = some '_' ∧ !c.isDigit then none
    else (dropMarks? (some c) rest).map (c :: ·)

/-- The number that ASCII digits stand for. -/
def decimalOf (digits : List Char) : Nat :=
  digits.foldl (fun n d => n * 10 + (d.toNat - 0x30)) 0

/-- An exponent at the head of a text, and what follows it. There may be none. -/
def exponent : List Char → Int × List Char
  | [] => (0, [])
  | e :: rest =>
    let (negative, s) := splitSign rest
    let digits := s.takeWhile Char.isDigit
    if (e = 'e' ∨ e = 'E') ∧ digits ≠ [] then
      (signed negative (decimalOf digits), s.drop digits.length)
    else (0, e :: rest)

/-- A decimal at the head of a text, with the digits before its point or after it, and what follows
it. -/
def decimal? (negative : Bool) (s : List Char) : Option (Binary64 × List Char) :=
  let whole := s.takeWhile Char.isDigit
  let (fraction, rest) := match s.drop whole.length with
    | '.' :: rest => (rest.takeWhile Char.isDigit, rest.dropWhile Char.isDigit)
    | rest => ([], rest)
  if whole.isEmpty && fraction.isEmpty then none
  else
    let (e, rest) := exponent rest
    some (Binary64.ofDecimal negative (decimalOf (whole ++ fraction)) (e - fraction.length), rest)

/-- What follows a word at the head of a text, in any case. -/
def afterWord? (word : String) (s : List Char) : Option (List Char) :=
  if (s.take word.length).map Char.toLower = word.toList then some (s.drop word.length) else none

/-- A real at the head of a text, and what follows it. -/
def realPrefix? (s : List Char) : Option (Binary64 × List Char) :=
  let (negative, body) := splitSign s
  match afterWord? "infinity" body with
  | some rest => some (.infinite negative, rest)
  | none =>
    match afterWord? "inf" body with
    | some rest => some (.infinite negative, rest)
    | none =>
      match afterWord? "nan" body with
      | some rest => some (.notANumber, rest)
      | none => decimal? negative body

/-- The real that a numeral stands for. -/
def real? (s : List Char) : Option Binary64 :=
  match dropMarks? none (plainDigits (trim s)) with
  | none => none
  | some s =>
    match realPrefix? s with
    | some (x, []) => some x
    | _ => none

/-- Whether a text stands for a real, an imaginary number, or the sum of both. -/
def isComplex (s : List Char) : Bool :=
  let isUnit := fun s : List Char => s = ['j'] ∨ s = ['J']
  match dropMarks? none (plainDigits (trim s)) with
  | none => false
  | some s =>
    match realPrefix? s with
    | some (_, []) => true
    | some (_, rest) =>
      isUnit rest || (match rest with
        | c :: more => (c = '+' ∨ c = '-') && (isUnit more || (match realPrefix? rest with
          | some (_, rest) => isUnit rest
          | none => false))
        | [] => false)
    | none => isUnit (splitSign s).2

end RouteDocs.Numeral
