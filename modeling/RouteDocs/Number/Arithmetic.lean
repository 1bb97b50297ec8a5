import RouteDocs.Number.Binary64

/-!
# Arithmetic of doubles

Sums and products are exact and then rounded to the nearest double. Numbers are
compared by their exact values.
-/
namespace RouteDocs.Binary64

def zero : Binary64 := .finite false 0 minExponent

/-- The nearest double to an integer. -/
def ofInt (n : Int) : Binary64 :=
  ofDecimal (n < 0) n.natAbs 0

/-- The nearest double to `n * 2 ^ e`, a zero with a given sign. -/
def ofScaled (negativeZero : Bool) (n : Int) (e : Int) : Binary64 :=
  if n = 0 then .finite negativeZero 0 minExponent
  else ofQuotient (n < 0) (n.natAbs * Nat.pow 2 e.toNat) (Nat.pow 2 (-e).toNat)

def signed (negative : Bool) (m : Nat) : Int :=
  if negative then -(m : Int) else m

/-- The sum of two doubles. A sum of zero is negative only if both parts are. -/
def plus : Binary64 → Binary64 → Binary64
  | finite a m e, finite b n f =>
    let low := min e f
    let sum := signed a m * Nat.pow 2 (e - low).toNat + signed b n * Nat.pow 2 (f - low).toNat
    ofScaled (a && b) sum low
  | infinite a, infinite b => if a = b then .infinite a else .notANumber
  | infinite a, finite .. => .infinite a
  | finite .., infinite b => .infinite b
  | notANumber, _ => .notANumber
  | _, notANumber => .notANumber

def times : Binary64 → Binary64 → Binary64
  | finite a m e, finite b n f => ofScaled (a != b) (signed (a != b) (m * n)) (e + f)
  | infinite a, infinite b => .infinite (a != b)
  | infinite a, finite b n _ => if n = 0 then .notANumber else .infinite (a != b)
  | finite a m _, infinite b => if m = 0 then .notANumber else .infinite (a != b)
  | notANumber, _ => .notANumber
  | _, notANumber => .notANumber

/-- The double of the other sign. -/
def negated : Binary64 → Binary64
  | finite a m e => .finite (!a) m e
  | infinite a => .infinite (!a)
  | notANumber => .notANumber

/-- Whether a double is below another, by value. Nothing is below or above no number. -/
def isBelow : Binary64 → Binary64 → Bool
  | finite a m e, finite b n f =>
    let low := min e f
    signed a m * Nat.pow 2 (e - low).toNat < signed b n * Nat.pow 2 (f - low).toNat
  | infinite a, finite .. => a
  | finite .., infinite b => !b
  | infinite a, infinite b => a && !b
  | _, _ => false

/-- Whether a double is below an integer. -/
def isBelowInt : Binary64 → Int → Bool
  | finite a m e, n => signed a m * Nat.pow 2 e.toNat < n * Nat.pow 2 (-e).toNat
  | infinite a, _ => a
  | notANumber, _ => false

def isAboveInt : Binary64 → Int → Bool
  | finite a m e, n => n * Nat.pow 2 (-e).toNat < signed a m * Nat.pow 2 e.toNat
  | infinite a, _ => !a
  | notANumber, _ => false

end RouteDocs.Binary64
