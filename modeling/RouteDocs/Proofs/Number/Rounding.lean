import Mathlib.Data.Rat.Cast.Order
import Mathlib.Algebra.Order.Field.Power
import Mathlib.Tactic.FieldSimp
import Mathlib.Tactic.Linarith
import Mathlib.Tactic.NormNum
import Mathlib.Tactic.Ring
import RouteDocs.Number.Binary64

/-!
# Reading a decimal as a double

The reals that round to a double fill the way to half its neighbours, with the
ends if its mantissa is even. `ofDecimal` gives the double for every decimal
among them, however many zeros the decimal is written with.

Results:
* `roundQuotient_eq`: the nearest number to a quotient.
* `scaleOf_eq`: the exponent at which a quotient has a mantissa of 53 bits.
* `ofQuotient_eq`, `ofDecimal_eq`: a quotient or decimal that rounds to a double is read as it.
* `isCanonical_ofDecimal`: what is read is in the form that these results are about.
-/
namespace RouteDocs.Binary64

/-! ## Powers -/

/-- A power with an exponent of either sign as a quotient of two powers. -/
theorem zpow_mul_pow_toNat {b : ℚ} (hb : b ≠ 0) (e : ℤ) :
    b ^ e * b ^ (-e).toNat = b ^ e.toNat := by
  rw [← zpow_natCast, ← zpow_natCast, ← zpow_add₀ hb]
  congr 1
  omega

theorem two_zpow_pos (e : ℤ) : (0 : ℚ) < 2 ^ e :=
  zpow_pos (by norm_num) e

theorem ten_zpow_pos (e : ℤ) : (0 : ℚ) < 10 ^ e :=
  zpow_pos (by norm_num) e

theorem two_zpow_add (e : ℤ) (n : ℕ) : (2 : ℚ) ^ (e + n) = 2 ^ n * 2 ^ e := by
  rw [zpow_add₀ (by norm_num), zpow_natCast, mul_comm]

theorem two_pow_le_div_iff {x : ℚ} (e : ℤ) (n : ℕ) : 2 ^ n ≤ x / 2 ^ e ↔ 2 ^ (e + n) ≤ x := by
  rw [le_div_iff₀ (two_zpow_pos e), two_zpow_add]

theorem div_lt_two_pow_iff {x : ℚ} (e : ℤ) (n : ℕ) : x / 2 ^ e < 2 ^ n ↔ x < 2 ^ (e + n) := by
  rw [div_lt_iff₀ (two_zpow_pos e), two_zpow_add]

/-! ## The nearest number to a quotient -/

theorem roundQuotient_add {den r : ℕ} (hr : r < den) (q : ℕ) :
    roundQuotient (den * q + r) den =
      if 2 * r < den then q
      else if 2 * r > den then q + 1
      else if q % 2 = 0 then q else q + 1 := by
  have hden : 0 < den := Nat.zero_lt_of_lt hr
  have hdiv : (den * q + r) / den = q := by
    rw [Nat.mul_add_div hden, Nat.div_eq_of_lt hr, Nat.add_zero]
  have hmod : (den * q + r) % den = r := by rw [Nat.mul_add_mod, Nat.mod_eq_of_lt hr]
  rw [roundQuotient, hdiv, hmod]

theorem roundQuotient_le {num den a : ℕ} (hden : 0 < den) (h : num ≤ a * den) :
    roundQuotient num den ≤ a := by
  obtain ⟨q, r, hr, rfl⟩ : ∃ q r, r < den ∧ num = den * q + r :=
    ⟨num / den, num % den, Nat.mod_lt num hden, (Nat.div_add_mod num den).symm⟩
  have hq : q ≤ a := by
    by_contra hlt
    have hmul : (a + 1) * den ≤ q * den := Nat.mul_le_mul_right den (by omega)
    nlinarith
  rw [roundQuotient_add hr]
  by_cases hless : 2 * r < den
  · rw [if_pos hless]
    exact hq
  · -- what is rounded up is not the number itself
    have hne : q ≠ a := by
      rintro rfl
      have hcomm : q * den = den * q := Nat.mul_comm q den
      omega
    split_ifs <;> omega

theorem le_roundQuotient {num den a : ℕ} (hden : 0 < den) (h : a * den ≤ num) :
    a ≤ roundQuotient num den := by
  have hq : a ≤ num / den := (Nat.le_div_iff_mul_le hden).2 h
  simp only [roundQuotient]
  split_ifs <;> omega

/-- A number is the nearest to a quotient if they are no more than a half apart, or less if the
number is odd. -/
theorem roundQuotient_eq {num den m : ℕ} (hden : 0 < den) (hlow : 2 * m * den ≤ 2 * num + den)
    (hhigh : 2 * num ≤ 2 * m * den + den)
    (hodd : m % 2 = 1 → 2 * m * den < 2 * num + den ∧ 2 * num < 2 * m * den + den) :
    roundQuotient num den = m := by
  obtain ⟨q, r, hr, rfl⟩ : ∃ q r, r < den ∧ num = den * q + r :=
    ⟨num / den, num % den, Nat.mod_lt num hden, (Nat.div_add_mod num den).symm⟩
  rw [roundQuotient_add hr]
  -- the number is the quotient rounded down, or the next one
  have hle : q ≤ m := by
    by_contra hlt
    have hmul : (m + 1) * den ≤ q * den := Nat.mul_le_mul_right den (by omega)
    nlinarith
  have hge : m ≤ q + 1 := by
    by_contra hlt
    have hmul : (q + 2) * den ≤ m * den := Nat.mul_le_mul_right den (by omega)
    nlinarith
  obtain rfl | rfl : m = q ∨ m = q + 1 := by omega
  · have hcomm : 2 * m * den = 2 * (den * m) := by ring
    rw [hcomm] at hlow hhigh hodd
    by_cases heven : m % 2 = 1
    · have hstrict := hodd heven
      rw [if_pos (by omega)]
    · have hzero : m % 2 = 0 := by omega
      have hmore : ¬ 2 * r > den := by omega
      simp only [hmore, hzero, if_true, if_false, ite_self]
  · have hcomm : 2 * (q + 1) * den = 2 * (den * q) + 2 * den := by ring
    rw [hcomm] at hlow hhigh hodd
    rw [if_neg (by omega)]
    split
    · rfl
    · have heven : ¬ q % 2 = 0 := by
        intro hzero
        have hstrict := hodd (by omega)
        omega
      rw [if_neg heven]

theorem roundQuotient_of_value {num den m : ℕ} (hden : 0 < den) {q : ℚ} (hq : (num : ℚ) = q * den)
    (hlow : (m : ℚ) - 1 / 2 ≤ q) (hhigh : q ≤ m + 1 / 2)
    (hodd : m % 2 = 1 → (m : ℚ) - 1 / 2 < q ∧ q < m + 1 / 2) : roundQuotient num den = m := by
  have hpos : (0 : ℚ) < den := by exact_mod_cast hden
  refine roundQuotient_eq hden ?_ ?_ fun h => ⟨?_, ?_⟩
  · have hmul := mul_le_mul_of_nonneg_right hlow hpos.le
    have hgoal : (2 : ℚ) * m * den ≤ 2 * num + den := by rw [hq]; linarith
    exact_mod_cast hgoal
  · have hmul := mul_le_mul_of_nonneg_right hhigh hpos.le
    have hgoal : (2 : ℚ) * num ≤ 2 * m * den + den := by rw [hq]; linarith
    exact_mod_cast hgoal
  · have hmul := mul_lt_mul_of_pos_right (hodd h).1 hpos
    have hgoal : (2 : ℚ) * m * den < 2 * num + den := by rw [hq]; linarith
    exact_mod_cast hgoal
  · have hmul := mul_lt_mul_of_pos_right (hodd h).2 hpos
    have hgoal : (2 : ℚ) * num < 2 * m * den + den := by rw [hq]; linarith
    exact_mod_cast hgoal

/-! ## The scale of a quotient -/

theorem quotient_on_scale (num : ℕ) {den : ℕ} (hden : 0 < den) (e : ℤ) :
    ((num * Nat.pow 2 (-e).toNat : ℕ) : ℚ) =
      (num / den : ℚ) / 2 ^ e * ((den * Nat.pow 2 e.toNat : ℕ) : ℚ) := by
  have hpow := zpow_mul_pow_toNat (b := 2) (by norm_num) e
  have hpos : (den : ℚ) ≠ 0 := by exact_mod_cast hden.ne'
  have hscale := (two_zpow_pos e).ne'
  simp only [Nat.pow_eq]
  push_cast
  rw [← hpow]
  field_simp

theorem quotient_lt_iff (num : ℕ) {den : ℕ} (hden : 0 < den) (e : ℤ) :
    num * Nat.pow 2 (-e).toNat < den * Nat.pow 2 e.toNat ↔ (num / den : ℚ) < 2 ^ e := by
  have hscale := two_zpow_pos e
  have hpos : (0 : ℚ) < ((den * Nat.pow 2 e.toNat : ℕ) : ℚ) := by
    have hpow : 0 < Nat.pow 2 e.toNat := Nat.pow_pos (by decide)
    exact_mod_cast Nat.mul_pos hden hpow
  rw [← Nat.cast_lt (α := ℚ), quotient_on_scale num hden e, mul_lt_iff_lt_one_left hpos,
    div_lt_iff₀ hscale, one_mul]

/-- A quotient lies between two powers of two whose exponents differ by two. -/
theorem quotient_between {num den : ℕ} (hnum : 0 < num) (hden : 0 < den) :
    (2 : ℚ) ^ ((num.log2 : ℤ) - den.log2 - 1) < num / den ∧
      (num / den : ℚ) < 2 ^ ((num.log2 : ℤ) - den.log2 + 1) := by
  have hpos : (0 : ℚ) < den := by exact_mod_cast hden
  have hbelow {n : ℕ} (hn : 0 < n) : (2 : ℚ) ^ (n.log2 : ℤ) ≤ n := by
    rw [zpow_natCast]
    exact_mod_cast Nat.log2_self_le hn.ne'
  have habove (n : ℕ) : (n : ℚ) < 2 ^ ((n.log2 : ℤ) + 1) := by
    rw [← Nat.cast_succ, zpow_natCast]
    exact_mod_cast Nat.lt_log2_self
  have htwo : (2 : ℚ) ≠ 0 := by norm_num
  constructor
  · rw [lt_div_iff₀ hpos]
    calc (2 : ℚ) ^ ((num.log2 : ℤ) - den.log2 - 1) * den
        < 2 ^ ((num.log2 : ℤ) - den.log2 - 1) * 2 ^ ((den.log2 : ℤ) + 1) :=
          mul_lt_mul_of_pos_left (habove den) (two_zpow_pos _)
      _ = 2 ^ (num.log2 : ℤ) := by rw [← zpow_add₀ htwo]; congr 1; ring
      _ ≤ num := hbelow hnum
  · rw [div_lt_iff₀ hpos]
    calc (num : ℚ) < 2 ^ ((num.log2 : ℤ) + 1) := habove num
      _ = 2 ^ ((num.log2 : ℤ) - den.log2 + 1) * 2 ^ (den.log2 : ℤ) := by
          rw [← zpow_add₀ htwo]; congr 1; ring
      _ ≤ 2 ^ ((num.log2 : ℤ) - den.log2 + 1) * den :=
          mul_le_mul_of_nonneg_left (hbelow hden) (two_zpow_pos _).le

/-- At the scale of a quotient its mantissa has 53 bits, or less at the least scale. -/
theorem scaleOf_spec {num den : ℕ} (hnum : 0 < num) (hden : 0 < den) :
    minExponent ≤ scaleOf num den ∧
      ((2 : ℚ) ^ 52 ≤ num / den / 2 ^ scaleOf num den ∨ scaleOf num den = minExponent) ∧
      (num / den : ℚ) / 2 ^ scaleOf num den < 2 ^ 53 := by
  obtain ⟨hbelow, habove⟩ := quotient_between hnum hden
  have hone : (1 : ℚ) ≤ 2 := by norm_num
  have hcompare := quotient_lt_iff num hden ((num.log2 : ℤ) - den.log2)
  -- the place of the leading bit
  obtain ⟨top, hlo, hhi, heq⟩ : ∃ top : ℤ, (2 : ℚ) ^ top ≤ num / den ∧
      (num / den : ℚ) < 2 ^ (top + 1) ∧ scaleOf num den = max (top - 52) minExponent := by
    by_cases h : num * Nat.pow 2 (-((num.log2 : ℤ) - den.log2)).toNat <
        den * Nat.pow 2 ((num.log2 : ℤ) - den.log2).toNat
    · refine ⟨(num.log2 : ℤ) - den.log2 - 1, hbelow.le, ?_, ?_⟩
      · rw [sub_add_cancel]
        exact hcompare.1 h
      · exact congrArg (fun top : ℤ => max (top - 52) minExponent) (if_pos h)
    · refine ⟨(num.log2 : ℤ) - den.log2, le_of_not_gt fun hlt => h (hcompare.2 hlt), habove, ?_⟩
      exact congrArg (fun top : ℤ => max (top - 52) minExponent) (if_neg h)
  rw [heq, two_pow_le_div_iff, div_lt_two_pow_iff]
  refine ⟨le_max_right _ _, ?_, lt_of_lt_of_le hhi (zpow_le_zpow_right₀ hone (by omega))⟩
  rcases le_total minExponent (top - 52) with h | h
  · have hcancel : top - 52 + (52 : ℕ) = top := sub_add_cancel top 52
    rw [max_eq_left h, hcancel]
    exact .inl hlo
  · exact .inr (max_eq_right h)

/-- The scale of a quotient is the only exponent with this property. -/
theorem scaleOf_eq {num den : ℕ} (hnum : 0 < num) (hden : 0 < den) {e : ℤ} (hleast : minExponent ≤ e)
    (hlow : (2 : ℚ) ^ 52 ≤ num / den / 2 ^ e ∨ e = minExponent)
    (hhigh : (num / den : ℚ) / 2 ^ e < 2 ^ 53) : scaleOf num den = e := by
  obtain ⟨hleast', hlow', hhigh'⟩ := scaleOf_spec hnum hden
  have hone : (1 : ℚ) < 2 := by norm_num
  rw [two_pow_le_div_iff] at hlow hlow'
  rw [div_lt_two_pow_iff] at hhigh hhigh'
  have hle : scaleOf num den ≤ e := by
    rcases hlow' with hlow' | h
    · have hlt := (zpow_lt_zpow_iff_right₀ hone).1 (lt_of_le_of_lt hlow' hhigh)
      omega
    · exact h ▸ hleast
  have hge : e ≤ scaleOf num den := by
    rcases hlow with hlow | h
    · have hlt := (zpow_lt_zpow_iff_right₀ hone).1 (lt_of_le_of_lt hlow hhigh')
      omega
    · exact h ▸ hleast'
  exact le_antisymm hle hge

/-! ## The mantissa of a quotient -/

/-- The mantissa of a quotient on the scale of an exponent. -/
def mantissaAt (num den : ℕ) (e : ℤ) : ℕ :=
  roundQuotient (num * Nat.pow 2 (-e).toNat) (den * Nat.pow 2 e.toNat)

section
variable {num den a : ℕ} {e : ℤ}

theorem scaled_den_pos (hden : 0 < den) (e : ℤ) : 0 < den * Nat.pow 2 e.toNat :=
  Nat.mul_pos hden (Nat.pow_pos (by decide))

theorem mantissaAt_eq (hden : 0 < den) (hlow : (a : ℚ) - 1 / 2 ≤ num / den / 2 ^ e)
    (hhigh : (num / den : ℚ) / 2 ^ e ≤ a + 1 / 2)
    (hodd : a % 2 = 1 → (a : ℚ) - 1 / 2 < num / den / 2 ^ e ∧ (num / den : ℚ) / 2 ^ e < a + 1 / 2) :
    mantissaAt num den e = a :=
  roundQuotient_of_value (scaled_den_pos hden e) (quotient_on_scale num hden e) hlow hhigh hodd

theorem mantissaAt_le (hden : 0 < den) (h : (num / den : ℚ) / 2 ^ e ≤ a) :
    mantissaAt num den e ≤ a := by
  have hpos := scaled_den_pos hden e
  have hmul := mul_le_mul_of_nonneg_right h (Nat.cast_nonneg (den * Nat.pow 2 e.toNat))
  rw [← quotient_on_scale num hden e] at hmul
  exact roundQuotient_le hpos (by exact_mod_cast hmul)

theorem le_mantissaAt (hden : 0 < den) (h : (a : ℚ) ≤ num / den / 2 ^ e) :
    a ≤ mantissaAt num den e := by
  have hpos := scaled_den_pos hden e
  have hmul := mul_le_mul_of_nonneg_right h (Nat.cast_nonneg (den * Nat.pow 2 e.toNat))
  rw [← quotient_on_scale num hden e] at hmul
  exact le_roundQuotient hpos (by exact_mod_cast hmul)

/-- A quotient is rounded to its mantissa, or to a power of two if that is rounded up to 54 bits. -/
theorem ofQuotient_by_mantissa (negative : Bool) (num den : ℕ) :
    ofQuotient negative num den =
      if mantissaAt num den (scaleOf num den) = 2 ^ 53 then
        if scaleOf num den + 1 > maxExponent then .infinite negative
        else .finite negative (2 ^ 52) (scaleOf num den + 1)
      else if scaleOf num den > maxExponent then .infinite negative
      else .finite negative (mantissaAt num den (scaleOf num den)) (scaleOf num den) := by
  unfold ofQuotient
  by_cases h : mantissaAt num den (scaleOf num den) = 2 ^ 53
  · have hcarry : roundQuotient (num * Nat.pow 2 (-scaleOf num den).toNat)
        (den * Nat.pow 2 (scaleOf num den).toNat) = Nat.pow 2 53 := h
    simp only [if_pos h, if_pos hcarry]
    rfl
  · have hcarry : ¬ roundQuotient (num * Nat.pow 2 (-scaleOf num den).toNat)
        (den * Nat.pow 2 (scaleOf num den).toNat) = Nat.pow 2 53 := h
    simp only [if_neg h, if_neg hcarry]
    rfl

end

/-! ## The reals that round to a double -/

/-- The mantissa and the exponent of a double: the mantissa has 53 bits unless the exponent is the
least. -/
structure IsCanonical (m : ℕ) (e : ℤ) : Prop where
  below : m < 2 ^ 53
  least : minExponent ≤ e
  greatest : e ≤ maxExponent
  full : 2 ^ 52 ≤ m ∨ e = minExponent

/-- The reals that round to a double, on the scale on which its mantissa is its value: up to half
the way to its neighbours, with the ends if the mantissa is even. -/
structure Rounds (m : ℕ) (e : ℤ) (x : ℚ) : Prop where
  low : ((roundingOf m e).low : ℚ) / 4 ≤ x / 2 ^ e
  high : x / 2 ^ e ≤ m + 1 / 2
  strict : m % 2 = 1 → ((roundingOf m e).low : ℚ) / 4 < x / 2 ^ e ∧ x / 2 ^ e < m + 1 / 2

section
variable {m : ℕ} {e : ℤ} {x : ℚ}

theorem low_roundingOf (m : ℕ) (e : ℤ) :
    (roundingOf m e).low = if m = 2 ^ 52 ∧ e > minExponent then 4 * m - 1 else 4 * m - 2 :=
  rfl

/-- A double's neighbour below is one step away, or half a step below a power of two. -/
theorem low_cases (hm : 1 ≤ m) (e : ℤ) :
    ((roundingOf m e).low : ℚ) / 4 = m - 1 / 2 ∨
      ((roundingOf m e).low : ℚ) / 4 = m - 1 / 4 ∧ m = 2 ^ 52 ∧ minExponent < e := by
  rw [low_roundingOf]
  split
  · rename_i h
    refine .inr ⟨?_, h.1, h.2⟩
    rw [Nat.cast_sub (by omega)]
    push_cast
    ring
  · refine .inl ?_
    rw [Nat.cast_sub (by omega)]
    push_cast
    ring

theorem half_le_low (hm : 1 ≤ m) (e : ℤ) : (m : ℚ) - 1 / 2 ≤ ((roundingOf m e).low : ℚ) / 4 := by
  rcases low_cases hm e with h | ⟨h, -, -⟩
  · rw [h]
  · rw [h]
    linarith

theorem ofQuotient_below_power (negative : Bool) (hleast : minExponent < e)
    (hgreatest : e ≤ maxExponent) {num den : ℕ} (hnum : 0 < num) (hden : 0 < den)
    (hlow : (2 : ℚ) ^ 52 - 1 / 4 ≤ num / den / 2 ^ e) (hhigh : (num / den : ℚ) / 2 ^ e < 2 ^ 52) :
    ofQuotient negative num den = .finite negative (2 ^ 52) e := by
  -- on the scale below it, the quotient is twice as great
  have hdouble : (num / den : ℚ) / 2 ^ (e - 1) = 2 * (num / den / 2 ^ e) := by
    rw [zpow_sub_one₀ (by norm_num)]
    field_simp
  have hexp : scaleOf num den = e - 1 := by
    refine scaleOf_eq hnum hden (by omega) (.inl ?_) ?_
    · rw [hdouble]
      linarith
    · rw [hdouble]
      linarith
  have hround : mantissaAt num den (e - 1) = 2 ^ 53 := by
    refine mantissaAt_eq hden ?_ ?_ fun hodd => absurd hodd (by decide)
    · rw [hdouble]
      push_cast
      linarith
    · rw [hdouble]
      push_cast
      linarith
  rw [ofQuotient_by_mantissa, hexp, if_pos hround, sub_add_cancel, if_neg (by omega)]

/-- The nearest double to a quotient that rounds to a double is this double. -/
theorem ofQuotient_eq (negative : Bool) (hm : 1 ≤ m) (hc : IsCanonical m e) {num den : ℕ}
    (hnum : 0 < num) (hden : 0 < den) (h : Rounds m e (num / den)) :
    ofQuotient negative num den = .finite negative m e := by
  have hlow := h.low
  have hhigh := h.high
  have hhalf := half_le_low hm e
  have hbelow : (m : ℚ) + 1 ≤ 2 ^ 53 := by exact_mod_cast hc.below
  by_cases hfull : (2 : ℚ) ^ 52 ≤ num / den / 2 ^ e ∨ e = minExponent
  · -- the quotient has the exponent of the double
    have hexp : scaleOf num den = e := scaleOf_eq hnum hden hc.least hfull (by linarith)
    have hround : mantissaAt num den e = m := mantissaAt_eq hden (hhalf.trans hlow) hhigh fun hodd =>
      ⟨lt_of_le_of_lt hhalf (h.strict hodd).1, (h.strict hodd).2⟩
    have hgreatest := hc.greatest
    rw [ofQuotient_by_mantissa, hexp, hround, if_neg hc.below.ne, if_neg (by omega)]
  · rw [not_or, not_le] at hfull
    obtain ⟨hsmall, hmin⟩ := hfull
    have hleast : minExponent < e := lt_of_le_of_ne hc.least (Ne.symm hmin)
    obtain rfl : m = 2 ^ 52 := by
      have hnear : (m : ℚ) < 2 ^ 52 + 1 := by linarith
      have hle : m < 2 ^ 52 + 1 := by exact_mod_cast hnear
      have hge := hc.full.resolve_right hmin
      omega
    have hquarter : (2 : ℚ) ^ 52 - 1 / 4 ≤ num / den / 2 ^ e := by
      rw [low_roundingOf, if_pos ⟨rfl, hleast⟩] at hlow
      norm_num at hlow ⊢
      linarith
    exact ofQuotient_below_power negative hleast hc.greatest hnum hden hquarter hsmall

theorem isCanonical_ofQuotient {negative sign : Bool} {num den : ℕ} (hnum : 0 < num)
    (hden : 0 < den) (h : ofQuotient negative num den = .finite sign m e) : IsCanonical m e := by
  obtain ⟨hleast, hlow, hhigh⟩ := scaleOf_spec hnum hden
  have hle : mantissaAt num den (scaleOf num den) ≤ 2 ^ 53 :=
    mantissaAt_le hden (by exact_mod_cast hhigh.le)
  have hge : 2 ^ 52 ≤ mantissaAt num den (scaleOf num den) ∨ scaleOf num den = minExponent :=
    hlow.imp_left fun hlow => le_mantissaAt hden (by exact_mod_cast hlow)
  rw [ofQuotient_by_mantissa] at h
  generalize mantissaAt num den (scaleOf num den) = r at h hle hge
  split at h
  · split at h
    · cases h
    · cases h
      exact ⟨by decide, by omega, by omega, .inl (Nat.le_refl _)⟩
  · rename_i hr
    split at h
    · cases h
    · cases h
      exact ⟨lt_of_le_of_ne hle hr, hleast, by omega, hge⟩

end

/-! ## Decimals -/

/-- The decimal logarithm of a power of two is met by the estimate, up to one place. -/
theorem estimate_nat : ∀ n < 1101,
    10 ^ (n * 30103 / 100000) ≤ 10 * 2 ^ n ∧ 2 ^ (n + 1) ≤ 10 ^ (n * 30103 / 100000 + 2) ∧
      2 ^ n ≤ 10 ^ ((n * 30103 + 99999) / 100000 + 1) ∧
      2 * 10 ^ ((n * 30103 + 99999) / 100000) ≤ 100 * 2 ^ n := by
  decide +kernel

/-- The place of the leading digit of a power of two, estimated as it is in reading and writing
decimals, is right to within one place. -/
theorem estimate_spec {l : ℤ} (hlow : -1101 < l) (hhigh : l < 1101) :
    (10 : ℚ) ^ (l * 30103 / 100000 - 1) ≤ 2 ^ l ∧
      (2 : ℚ) ^ (l + 1) ≤ 10 ^ (l * 30103 / 100000 + 2) := by
  have hten : (10 : ℚ) ≠ 0 := by norm_num
  have htwo : (2 : ℚ) ≠ 0 := by norm_num
  rcases le_total 0 l with h | h
  · obtain ⟨n, rfl⟩ := Int.eq_ofNat_of_zero_le h
    obtain ⟨hfirst, hsecond, -, -⟩ := estimate_nat n (by omega)
    have hcast : (n : ℤ) * 30103 / 100000 = (n * 30103 / 100000 : ℕ) := by omega
    rw [hcast]
    constructor
    · rw [zpow_sub_one₀ hten, zpow_natCast, zpow_natCast, ← div_eq_mul_inv, div_le_iff₀ (by norm_num)]
      have hcomm : (10 : ℚ) ^ (n * 30103 / 100000) ≤ 10 * 2 ^ n := by exact_mod_cast hfirst
      linarith
    · exact_mod_cast hsecond
  · obtain ⟨n, rfl⟩ : ∃ n : ℕ, l = -n := ⟨l.natAbs, by omega⟩
    obtain ⟨-, -, hfirst, hsecond⟩ := estimate_nat n (by omega)
    have hcast : -(n : ℤ) * 30103 / 100000 = -((n * 30103 + 99999) / 100000 : ℕ) := by omega
    rw [hcast]
    generalize (n * 30103 + 99999) / 100000 = c at hfirst hsecond
    constructor
    · have hexp : -(c : ℤ) - 1 = -((c + 1 : ℕ) : ℤ) := by push_cast; ring
      rw [hexp, zpow_neg, zpow_neg, zpow_natCast, zpow_natCast]
      have hle : (2 : ℚ) ^ n ≤ 10 ^ (c + 1) := by exact_mod_cast hfirst
      exact inv_anti₀ (by positivity) hle
    · rw [zpow_add₀ htwo, zpow_add₀ hten, zpow_neg, zpow_neg, zpow_natCast, zpow_natCast]
      have hle : (2 : ℚ) * 10 ^ c ≤ 100 * 2 ^ n := by exact_mod_cast hsecond
      have h2 : (0 : ℚ) < 2 ^ n := by positivity
      have h10 : (0 : ℚ) < 10 ^ c := by positivity
      have hdiv : (2 : ℚ) / 2 ^ n ≤ 100 / 10 ^ c := by
        rw [div_le_div_iff₀ h2 h10]
        exact hle
      calc ((2 : ℚ) ^ n)⁻¹ * 2 ^ (1 : ℤ) = 2 / 2 ^ n := by rw [zpow_one, inv_mul_eq_div]
        _ ≤ 100 / 10 ^ c := hdiv
        _ = (10 ^ c)⁻¹ * 10 ^ (2 : ℤ) := by rw [inv_mul_eq_div]; norm_num

/-- A decimal with its leading digit at this place is too great for a double. -/
theorem two_zpow_lt_ten_zpow : (2 : ℚ) ^ (1024 : ℤ) < 10 ^ (310 : ℤ) :=
  calc (2 : ℚ) ^ (1024 : ℤ) < 2 ^ ((1024 : ℤ) + 1) := zpow_lt_zpow_right₀ (by norm_num) (by norm_num)
    _ ≤ 10 ^ ((1024 : ℤ) * 30103 / 100000 + 2) := (estimate_spec (by norm_num) (by norm_num)).2

/-- A decimal with its leading digit at this place is too small for a double. -/
theorem ten_zpow_lt_two_zpow : (10 : ℚ) ^ (-329 : ℤ) < 2 ^ (-1075 : ℤ) :=
  calc (10 : ℚ) ^ (-329 : ℤ) < 10 ^ ((-1075 : ℤ) * 30103 / 100000 - 1) :=
        zpow_lt_zpow_right₀ (by norm_num) (by norm_num)
    _ ≤ 2 ^ (-1075 : ℤ) := (estimate_spec (by norm_num) (by norm_num)).1

section
variable {m : ℕ} {e : ℤ}

/-- What rounds to a double is neither too small nor too great for one. -/
theorem Rounds.between {x : ℚ} (h : Rounds m e x) (hm : 1 ≤ m) (hc : IsCanonical m e) :
    (2 : ℚ) ^ (-1075 : ℤ) ≤ x ∧ x < 2 ^ (1024 : ℤ) := by
  have hscale := two_zpow_pos e
  have hone : (1 : ℚ) ≤ 2 := by norm_num
  have htwo : (2 : ℚ) ≠ 0 := by norm_num
  have hleast := hc.least
  have hgreatest := hc.greatest
  unfold minExponent at hleast
  unfold maxExponent at hgreatest
  constructor
  · have hhalf := (half_le_low hm e).trans h.low
    have hge : (1 : ℚ) ≤ m := by exact_mod_cast hm
    have hbelow : (1 : ℚ) / 2 ≤ x / 2 ^ e := by linarith
    rw [le_div_iff₀ hscale] at hbelow
    calc (2 : ℚ) ^ (-1075 : ℤ) ≤ 2 ^ (e - 1) := zpow_le_zpow_right₀ hone (by omega)
      _ = 1 / 2 * 2 ^ e := by rw [zpow_sub_one₀ htwo]; ring
      _ ≤ x := hbelow
  · have hhigh := h.high
    have hbelow : (m : ℚ) + 1 ≤ 2 ^ 53 := by exact_mod_cast hc.below
    have hlt : x / 2 ^ e < 2 ^ 53 := by linarith
    rw [div_lt_iff₀ hscale] at hlt
    calc x < 2 ^ 53 * 2 ^ e := hlt
      _ = 2 ^ (e + 53) := by rw [zpow_add₀ htwo, mul_comm]; rfl
      _ ≤ 2 ^ (1024 : ℤ) := zpow_le_zpow_right₀ hone (by omega)

/-- A decimal that rounds to a double is read as this double. -/
theorem ofDecimal_eq (negative : Bool) (hm : 1 ≤ m) (hc : IsCanonical m e) {d : ℕ} (hd : 0 < d)
    (hsize : d < 2 ^ 200) {k : ℤ} (h : Rounds m e (d * 10 ^ k)) :
    ofDecimal negative d k = .finite negative m e := by
  obtain ⟨hlow, hhigh⟩ := h.between hm hc
  have hlog : d.log2 < 200 := (Nat.log2_lt hd.ne').2 hsize
  obtain ⟨hest, hest'⟩ := estimate_spec (l := d.log2) (by omega) (by omega)
  have hone : (1 : ℚ) ≤ 10 := by norm_num
  have hten : (10 : ℚ) ≠ 0 := by norm_num
  have hscale := ten_zpow_pos k
  generalize hplace : (d.log2 : ℤ) * 30103 / 100000 = place at hest hest'
  have hnotGreat : ¬ place + k > 310 := by
    intro hgreat
    have hbelow : (2 : ℚ) ^ (d.log2 : ℤ) ≤ d := by
      rw [zpow_natCast]
      exact_mod_cast Nat.log2_self_le hd.ne'
    have hle : (10 : ℚ) ^ (310 : ℤ) ≤ d * 10 ^ k :=
      calc (10 : ℚ) ^ (310 : ℤ) ≤ 10 ^ (place - 1 + k) := zpow_le_zpow_right₀ hone (by omega)
        _ = 10 ^ (place - 1) * 10 ^ k := zpow_add₀ hten _ _
        _ ≤ d * 10 ^ k := mul_le_mul_of_nonneg_right (hest.trans hbelow) hscale.le
    exact lt_irrefl _ (hhigh.trans (two_zpow_lt_ten_zpow.trans_le hle))
  have hnotSmall : ¬ place + k < -330 := by
    intro hsmall
    have habove : (d : ℚ) ≤ 2 ^ ((d.log2 : ℤ) + 1) := by
      rw [← Nat.cast_succ, zpow_natCast]
      exact_mod_cast Nat.lt_log2_self.le
    have hle : (d : ℚ) * 10 ^ k ≤ 10 ^ (-329 : ℤ) :=
      calc (d : ℚ) * 10 ^ k ≤ 10 ^ (place + 2) * 10 ^ k :=
            mul_le_mul_of_nonneg_right (habove.trans hest') hscale.le
        _ = 10 ^ (place + 2 + k) := (zpow_add₀ hten _ _).symm
        _ ≤ 10 ^ (-329 : ℤ) := zpow_le_zpow_right₀ hone (by omega)
    exact lt_irrefl _ (ten_zpow_lt_two_zpow.trans_le (hlow.trans hle))
  have hpow := zpow_mul_pow_toNat hten k
  have hvalue : ((d * Nat.pow 10 k.toNat : ℕ) : ℚ) / (Nat.pow 10 (-k).toNat : ℕ) = d * 10 ^ k := by
    have hne : (10 : ℚ) ^ (-k).toNat ≠ 0 := by positivity
    simp only [Nat.pow_eq]
    push_cast
    rw [← hpow]
    field_simp
  unfold ofDecimal
  rw [if_neg hd.ne']
  simp only [hplace, if_neg hnotGreat, if_neg hnotSmall]
  refine ofQuotient_eq negative hm hc (Nat.mul_pos hd (Nat.pow_pos (by decide)))
    (Nat.pow_pos (by decide)) ?_
  rw [hvalue]
  exact h

/-- What a decimal is read as is in canonical form, unless it is too great. -/
theorem isCanonical_ofDecimal {negative sign : Bool} {d : ℕ} {k : ℤ}
    (h : ofDecimal negative d k = .finite sign m e) : IsCanonical m e := by
  have hzero : IsCanonical 0 minExponent := ⟨by decide, by decide, by decide, .inr rfl⟩
  unfold ofDecimal at h
  split at h
  · cases h
    exact hzero
  · rename_i hd
    dsimp only at h
    split at h
    · cases h
    · split at h
      · cases h
        exact hzero
      · exact isCanonical_ofQuotient (Nat.mul_pos (Nat.pos_of_ne_zero hd) (Nat.pow_pos (by decide)))
          (Nat.pow_pos (by decide)) h

end

end RouteDocs.Binary64
