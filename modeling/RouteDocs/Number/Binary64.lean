/-!
# Double-precision numbers

A double-precision number by its exact value: a mantissa below `2 ^ 53` times a
power of two, an infinity, or no number. `ofDecimal` is the nearest double to a
decimal, ties going to the even mantissa. `shortest` is the decimal of fewest
digits that reads back as the same double, and of those the nearest.
-/
namespace RouteDocs

/-- A double-precision number. -/
inductive Binary64 where
  | finite (negative : Bool) (mantissa : Nat) (exponent : Int)
  | infinite (negative : Bool)
  | notANumber
  deriving DecidableEq

namespace Binary64

/-- The least exponent of a mantissa's last bit. -/
def minExponent : Int := -1074

/-- The greatest exponent of a mantissa's last bit. -/
def maxExponent : Int := 971

/-- A quotient rounded to the nearest number, ties to even. -/
def roundQuotient (num den : Nat) : Nat :=
  let q := num / den
  let r := num % den
  if 2 * r < den then q
  else if 2 * r > den then q + 1
  else if q % 2 = 0 then q else q + 1

/-- The exponent that scales a positive quotient to a mantissa of 53 bits, not below the
least one. -/
def scaleOf (num den : Nat) : Int :=
  let guess : Int := (num.log2 : Int) - (den.log2 : Int)
  let below := num * Nat.pow 2 (-guess).toNat < den * Nat.pow 2 guess.toNat
  let top := if below then guess - 1 else guess
  max (top - 52) minExponent

/-- The nearest double to a positive quotient. -/
def ofQuotient (negative : Bool) (num den : Nat) : Binary64 :=
  let e := scaleOf num den
  let m := roundQuotient (num * Nat.pow 2 (-e).toNat) (den * Nat.pow 2 e.toNat)
  let (m, e) := if m = Nat.pow 2 53 then (Nat.pow 2 52, e + 1) else (m, e)
  if e > maxExponent then .infinite negative else .finite negative m e

/-- The nearest double to `digits * 10 ^ exponent`. -/
def ofDecimal (negative : Bool) (digits : Nat) (exponent : Int) : Binary64 :=
  if digits = 0 then .finite negative 0 minExponent
  else
    let size : Int := (digits.log2 : Int) * 30103 / 100000 + exponent
    if size > 310 then .infinite negative
    else if size < -330 then .finite negative 0 minExponent
    else ofQuotient negative (digits * Nat.pow 10 exponent.toNat) (Nat.pow 10 (-exponent).toNat)

/-- Zero, of either sign. -/
def isZero : Binary64 → Bool
  | finite _ 0 _ => true
  | _ => false

/-- An infinity, of either sign. -/
def isInfinite : Binary64 → Bool
  | infinite _ => true
  | _ => false

def equalsInt : Binary64 → Int → Bool
  | finite negative m e, n =>
    let v : Int := m * Nat.pow 2 e.toNat
    (if negative then -v else v) == n * Nat.pow 2 (-e).toNat
  | _, _ => false

/-- Equality by value: the zeros agree, and no number agrees with nothing. -/
def sameValue : Binary64 → Binary64 → Bool
  | notANumber, _ => false
  | _, notANumber => false
  | x, y => x == y || (x.isZero && y.isZero)

/-! ## Shortest decimals -/

/-- Twice the distance between two naturals is compared through this. -/
def distance (a b : Nat) : Nat := (a - b) + (b - a)

/-- A positive double with the borders of the reals that round to it, all as multiples of
`2 ^ exponent`: its own value, the lower and the upper border, and whether the borders
round to it too. -/
structure Rounding where
  value : Nat
  low : Nat
  high : Nat
  closed : Bool
  exponent : Int

/-- The borders halve the way to the neighbours; below a power of two the way is half. -/
def roundingOf (m : Nat) (e : Int) : Rounding :=
  let low := if m = Nat.pow 2 52 ∧ e > minExponent then 4 * m - 1 else 4 * m - 2
  ⟨4 * m, low, 4 * m + 2, m % 2 = 0, e - 2⟩

/-- `x * 2 ^ exponent` on the scale on which a grid point is `d * gridUnit`. -/
def onGrid (exponent place : Int) (x : Nat) : Nat :=
  x * Nat.pow 2 exponent.toNat * Nat.pow 10 (-place).toNat

/-- The distance of two grid points of the grid of `10 ^ place`. -/
def gridUnit (exponent place : Int) : Nat :=
  Nat.pow 10 place.toNat * Nat.pow 2 (-exponent).toNat

/-- The nearest multiple of `10 ^ place` that rounds to the double, if one does. -/
def onPlace? (r : Rounding) (place : Int) : Option Nat :=
  let value := onGrid r.exponent place r.value
  let low := onGrid r.exponent place r.low
  let high := onGrid r.exponent place r.high
  let unit := gridUnit r.exponent place
  let inside := fun d =>
    if r.closed then low ≤ d * unit && d * unit ≤ high else low < d * unit && d * unit < high
  let below := value / unit
  let above := below + 1
  match inside below, inside above with
  | false, false => none
  | true, false => some below
  | false, true => some above
  | true, true =>
    let down := distance value (below * unit)
    let up := distance value (above * unit)
    if down < up then some below
    else if up < down then some above
    else if below % 2 = 0 then some below else some above

/-- The place of the leading digit of `m * 2 ^ e`, raised from an estimate that is not above it. -/
def leadingPlace (m : Nat) (e : Int) : Int :=
  let estimate : Int := ((m.log2 : Int) + e) * 30103 / 100000 - 1
  let reached := fun k : Int => gridUnit e k ≤ onGrid e k m
  let raise := fun k : Int => if reached (k + 1) then k + 1 else k
  raise (raise (raise estimate))

/-- The first grid, from coarse to fine, that has a point for the double. -/
def firstPlace (r : Rounding) (top : Int) : Nat → Nat → Nat × Int
  | 0, tried => (r.value, top - tried)
  | fuel + 1, tried =>
    match onPlace? r (top - tried) with
    | some d => (d, top - tried)
    | none => firstPlace r top fuel (tried + 1)

/-- Trailing zeros moved into the exponent. -/
def dropZeros : Nat → Nat × Int → Nat × Int
  | 0, d => d
  | fuel + 1, (d, k) => if d ≠ 0 ∧ d % 10 = 0 then dropZeros fuel (d / 10, k + 1) else (d, k)

/-- The shortest decimal `digits * 10 ^ place` of a positive `m * 2 ^ e`. -/
def shortest (m : Nat) (e : Int) : Nat × Int :=
  dropZeros 20 (firstPlace (roundingOf m e) (leadingPlace m e) 18 0)

/-- How a format writes a decimal: the places of the leading digit that are written without an
exponent, and the form of the exponent. -/
structure DecimalFormat where
  minPlain : Int
  maxPlain : Int
  plusSign : Bool
  exponentWidth : Nat
  infinity : String
  notANumber : String

/-- Texts show 0.0001 to 9999999999999998.0 plainly and `1e+16`, `1e-05` with an exponent. -/
def textFormat : DecimalFormat := ⟨-4, 15, true, 2, "inf", "nan"⟩

/-- Tree files show 0.00001 to 9999999999999998.0 plainly and `1e16`, `1e-6` with an exponent. -/
def fileFormat : DecimalFormat := ⟨-5, 15, false, 1, "null", "null"⟩

/-- A positive decimal written in a format. -/
def formatDecimal (f : DecimalFormat) (digits : Nat) (place : Int) : String :=
  let ds := (toString digits).toList
  let lead : Int := place + (ds.length : Int) - 1
  if f.minPlain ≤ lead ∧ lead ≤ f.maxPlain then
    if place ≥ 0 then
      String.ofList (ds ++ List.replicate place.toNat '0') ++ ".0"
    else if lead ≥ 0 then
      String.ofList (ds.take (lead.toNat + 1)) ++ "." ++ String.ofList (ds.drop (lead.toNat + 1))
    else
      "0." ++ String.ofList (List.replicate (-lead - 1).toNat '0' ++ ds)
  else
    let fraction := match ds.drop 1 with
      | [] => ""
      | more => "." ++ String.ofList more
    let size := toString lead.natAbs
    let padding := String.ofList (List.replicate (f.exponentWidth - size.length) '0')
    let sign := if lead < 0 then "-" else if f.plusSign then "+" else ""
    String.ofList (ds.take 1) ++ fraction ++ "e" ++ sign ++ padding ++ size

/-- A double written in a format. -/
def format (f : DecimalFormat) : Binary64 → String
  | notANumber => f.notANumber
  | infinite negative => (if negative then "-" else "") ++ f.infinity
  | finite negative m e =>
    let sign := if negative then "-" else ""
    if m = 0 then sign ++ "0.0"
    else
      let (digits, place) := shortest m e
      sign ++ formatDecimal f digits place

end Binary64
end RouteDocs
