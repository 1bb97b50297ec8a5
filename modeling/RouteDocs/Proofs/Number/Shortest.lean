import RouteDocs.Proofs.Number.Rounding

/-!
# The shortest decimal of a double

`shortest` looks on finer and finer grids of decimals for one that rounds to the
double. On the eighteenth grid at the latest there is one, since its points lie
closer together than half the way to a double's neighbour. So what is found is
read as the double.

Results:
* `isInside_iff`: the test of a grid point tells whether it rounds to the double.
* `leadingPlace_spec`: the unit of the first grid is not above the double.
* `shortest_spec`: the decimal that is found rounds to the double.
-/
namespace RouteDocs.Binary64

/-! ## Grids -/

section
variable {e p : ℤ} {x d : ℕ}

/-- A grid in proportion to the reals. -/
theorem grid_values (e p : ℤ) (x d : ℕ) :
    ∃ c : ℚ, 0 < c ∧ ((onGrid e p x : ℕ) : ℚ) = x * 2 ^ e * c ∧
      ((d * gridUnit e p : ℕ) : ℚ) = d * 10 ^ p * c := by
  have h2 := zpow_mul_pow_toNat (b := 2) (by norm_num) e
  have h10 := zpow_mul_pow_toNat (b := 10) (by norm_num) p
  refine ⟨2 ^ (-e).toNat * 10 ^ (-p).toNat, by positivity, ?_, ?_⟩
  · simp only [onGrid, Nat.pow_eq]
    push_cast
    rw [← h2]
    ring
  · simp only [gridUnit, Nat.pow_eq]
    push_cast
    rw [← h10]
    ring

theorem onGrid_le_iff : onGrid e p x ≤ d * gridUnit e p ↔ (x : ℚ) * 2 ^ e ≤ d * 10 ^ p := by
  obtain ⟨c, hc, hx, hd⟩ := grid_values e p x d
  rw [← Nat.cast_le (α := ℚ), hx, hd, mul_le_mul_iff_of_pos_right hc]

theorem onGrid_lt_iff : onGrid e p x < d * gridUnit e p ↔ (x : ℚ) * 2 ^ e < d * 10 ^ p := by
  obtain ⟨c, hc, hx, hd⟩ := grid_values e p x d
  rw [← Nat.cast_lt (α := ℚ), hx, hd, mul_lt_mul_iff_of_pos_right hc]

theorem le_onGrid_iff : d * gridUnit e p ≤ onGrid e p x ↔ (d : ℚ) * 10 ^ p ≤ x * 2 ^ e := by
  rw [← not_lt, onGrid_lt_iff, not_lt]

theorem lt_onGrid_iff : d * gridUnit e p < onGrid e p x ↔ (d : ℚ) * 10 ^ p < x * 2 ^ e := by
  rw [← not_le, onGrid_le_iff, not_le]

end

/-! ## Points that round to the double -/

section
variable {m d : ℕ} {e p : ℤ}

/-- A real in quarters of a double's step. -/
theorem quarter_le_iff (a : ℚ) (x : ℚ) (e : ℤ) : a * 2 ^ (e - 2) ≤ x ↔ a / 4 ≤ x / 2 ^ e := by
  have hscale := two_zpow_pos e
  rw [zpow_sub₀ (by norm_num), div_le_div_iff₀ (by norm_num) hscale]
  norm_num
  rw [← mul_div_assoc, div_le_iff₀ (by norm_num)]

theorem le_quarter_iff (a : ℚ) (x : ℚ) (e : ℤ) : x ≤ a * 2 ^ (e - 2) ↔ x / 2 ^ e ≤ a / 4 := by
  have hscale := two_zpow_pos e
  rw [zpow_sub₀ (by norm_num), div_le_div_iff₀ hscale (by norm_num)]
  norm_num
  rw [← mul_div_assoc, le_div_iff₀ (by norm_num)]

theorem quarter_lt_iff (a : ℚ) (x : ℚ) (e : ℤ) : a * 2 ^ (e - 2) < x ↔ a / 4 < x / 2 ^ e := by
  rw [← not_le, le_quarter_iff, not_le]

theorem lt_quarter_iff (a : ℚ) (x : ℚ) (e : ℤ) : x < a * 2 ^ (e - 2) ↔ x / 2 ^ e < a / 4 := by
  rw [← not_le, quarter_le_iff, not_le]

/-- Whether a grid point is within the borders of a double. -/
def isInside (r : Rounding) (p : ℤ) (d : ℕ) : Bool :=
  if r.closed then
    onGrid r.exponent p r.low ≤ d * gridUnit r.exponent p &&
      d * gridUnit r.exponent p ≤ onGrid r.exponent p r.high
  else
    onGrid r.exponent p r.low < d * gridUnit r.exponent p &&
      d * gridUnit r.exponent p < onGrid r.exponent p r.high

/-- The test of a grid point tells whether it rounds to the double. -/
theorem isInside_iff : isInside (roundingOf m e) p d = true ↔ Rounds m e (d * 10 ^ p) := by
  have hhigh : (((roundingOf m e).high : ℕ) : ℚ) / 4 = m + 1 / 2 := by
    have hdef : (roundingOf m e).high = 4 * m + 2 := rfl
    rw [hdef]
    push_cast
    ring
  have hexp : (roundingOf m e).exponent = e - 2 := rfl
  have hclosed : (roundingOf m e).closed = decide (m % 2 = 0) := rfl
  rw [isInside, hclosed, hexp]
  by_cases heven : m % 2 = 0
  · simp only [heven, decide_true, if_true, Bool.and_eq_true, decide_eq_true_eq]
    rw [onGrid_le_iff, le_onGrid_iff, quarter_le_iff, le_quarter_iff, hhigh]
    constructor
    · rintro ⟨hlow, hup⟩
      exact ⟨hlow, hup, fun hodd => by omega⟩
    · exact fun h => ⟨h.low, h.high⟩
  · simp only [heven, decide_false, Bool.false_eq_true, if_false, Bool.and_eq_true,
      decide_eq_true_eq]
    rw [onGrid_lt_iff, lt_onGrid_iff, quarter_lt_iff, lt_quarter_iff, hhigh]
    constructor
    · rintro ⟨hlow, hup⟩
      exact ⟨hlow.le, hup.le, fun _ => ⟨hlow, hup⟩⟩
    · exact fun h => h.strict (by omega)

/-- The search on one grid tries the points next to the double. -/
theorem onPlace?_eq (r : Rounding) (p : ℤ) :
    onPlace? r p =
      let value := onGrid r.exponent p r.value
      let below := value / gridUnit r.exponent p
      let down := distance value (below * gridUnit r.exponent p)
      let up := distance value ((below + 1) * gridUnit r.exponent p)
      match isInside r p below, isInside r p (below + 1) with
      | false, false => none
      | true, false => some below
      | false, true => some (below + 1)
      | true, true =>
        if down < up then some below
        else if up < down then some (below + 1)
        else if below % 2 = 0 then some below else some (below + 1) :=
  rfl

/-- What is found on a grid rounds to the double. -/
theorem rounds_of_onPlace? (h : onPlace? (roundingOf m e) p = some d) : Rounds m e (d * 10 ^ p) := by
  rw [← isInside_iff]
  rw [onPlace?_eq] at h
  dsimp only at h
  generalize onGrid (roundingOf m e).exponent p (roundingOf m e).value /
    gridUnit (roundingOf m e).exponent p = below at h
  cases hbelow : isInside (roundingOf m e) p below with
  | false =>
    cases habove : isInside (roundingOf m e) p (below + 1) with
    | false => simp only [hbelow, habove, reduceCtorEq] at h
    | true =>
      simp only [hbelow, habove, Option.some.injEq] at h
      exact h ▸ habove
  | true =>
    cases habove : isInside (roundingOf m e) p (below + 1) with
    | false =>
      simp only [hbelow, habove, Option.some.injEq] at h
      exact h ▸ hbelow
    | true =>
      simp only [hbelow, habove] at h
      split_ifs at h <;> cases h <;> assumption

/-- On a grid finer than a quarter of the double's step, the point below the double rounds to it. -/
theorem isInside_below (hm : 1 ≤ m) (hfine : (10 : ℚ) ^ p ≤ 2 ^ (e - 2)) :
    isInside (roundingOf m e) p (onGrid (e - 2) p (4 * m) / gridUnit (e - 2) p) = true := by
  have hexp : (roundingOf m e).exponent = e - 2 := rfl
  have hhigh : (roundingOf m e).high = 4 * m + 2 := rfl
  have hlow : (roundingOf m e).low < 4 * m := by
    rw [low_roundingOf]
    split <;> omega
  have hunit : 0 < gridUnit (e - 2) p := Nat.mul_pos (Nat.pow_pos (by decide)) (Nat.pow_pos (by decide))
  have hdown := Nat.div_mul_le_self (onGrid (e - 2) p (4 * m)) (gridUnit (e - 2) p)
  have hup := Nat.lt_div_mul_add hunit (a := onGrid (e - 2) p (4 * m))
  generalize onGrid (e - 2) p (4 * m) / gridUnit (e - 2) p = d at hdown hup ⊢
  rw [← Nat.succ_mul, onGrid_lt_iff] at hup
  rw [le_onGrid_iff] at hdown
  push_cast at hup hdown
  have hscale := two_zpow_pos (e - 2)
  have hcast : ((roundingOf m e).low : ℚ) + 1 ≤ 4 * m := by exact_mod_cast hlow
  have hover : ((roundingOf m e).low : ℚ) * 2 ^ (e - 2) < d * 10 ^ p := by
    have hmul := mul_le_mul_of_nonneg_right hcast hscale.le
    linarith
  have hunder : (d : ℚ) * 10 ^ p < ((4 * m + 2 : ℕ) : ℚ) * 2 ^ (e - 2) := by
    push_cast
    linarith
  rw [isInside, hexp, hhigh]
  split
  · simp only [Bool.and_eq_true, decide_eq_true_eq, onGrid_le_iff, le_onGrid_iff]
    exact ⟨hover.le, hunder.le⟩
  · simp only [Bool.and_eq_true, decide_eq_true_eq, onGrid_lt_iff, lt_onGrid_iff]
    exact ⟨hover, hunder⟩

/-- On a grid as fine as a quarter of a double's step a point is found. -/
theorem isSome_onPlace? (hm : 1 ≤ m) (hfine : (10 : ℚ) ^ p ≤ 2 ^ (e - 2)) :
    ∃ d, onPlace? (roundingOf m e) p = some d := by
  have hvalue : (roundingOf m e).value = 4 * m := rfl
  have hexp : (roundingOf m e).exponent = e - 2 := rfl
  rw [onPlace?_eq]
  dsimp only
  rw [hvalue, hexp, isInside_below hm hfine]
  cases isInside (roundingOf m e) p (onGrid (e - 2) p (4 * m) / gridUnit (e - 2) p + 1) with
  | false => exact ⟨_, rfl⟩
  | true =>
    dsimp only
    split_ifs <;> exact ⟨_, rfl⟩

/-! ## The search over grids -/

/-- The place after a place, if its unit is not above the double. -/
def raised (m : ℕ) (e k : ℤ) : ℤ := if gridUnit e (k + 1) ≤ onGrid e (k + 1) m then k + 1 else k

/-- A place is raised only as long as its unit is not above the double. -/
theorem raised_spec {k : ℤ} (h : (10 : ℚ) ^ k ≤ m * 2 ^ e) :
    k ≤ raised m e k ∧ (10 : ℚ) ^ raised m e k ≤ m * 2 ^ e := by
  unfold raised
  split
  · rename_i hreached
    have hle := le_onGrid_iff (d := 1) (e := e) (p := k + 1) (x := m)
    rw [Nat.one_mul, Nat.cast_one, one_mul] at hle
    exact ⟨by omega, hle.1 hreached⟩
  · exact ⟨le_refl k, h⟩

/-- The first place is an estimate that is raised three times. -/
theorem leadingPlace_eq (m : ℕ) (e : ℤ) :
    leadingPlace m e =
      raised m e (raised m e (raised m e (((m.log2 : ℤ) + e) * 30103 / 100000 - 1))) :=
  rfl

/-- The unit of the first place is not above the double, nor far below it. -/
theorem leadingPlace_spec (hm : 1 ≤ m) (hc : IsCanonical m e) :
    (10 : ℚ) ^ leadingPlace m e ≤ m * 2 ^ e ∧ (m : ℚ) * 2 ^ e < 10 ^ (leadingPlace m e + 3) := by
  have hleast := hc.least
  have hgreatest := hc.greatest
  unfold minExponent at hleast
  unfold maxExponent at hgreatest
  have hlog : m.log2 < 53 := (Nat.log2_lt (by omega)).2 hc.below
  have hscale := two_zpow_pos e
  have htwo : (2 : ℚ) ≠ 0 := by norm_num
  have hone : (1 : ℚ) ≤ 10 := by norm_num
  obtain ⟨hest, hest'⟩ := estimate_spec (l := (m.log2 : ℤ) + e) (by omega) (by omega)
  have hbelow : (2 : ℚ) ^ ((m.log2 : ℤ) + e) ≤ m * 2 ^ e := by
    rw [zpow_add₀ htwo, zpow_natCast]
    have hle : ((2 ^ m.log2 : ℕ) : ℚ) ≤ m := by exact_mod_cast Nat.log2_self_le (by omega)
    push_cast at hle
    exact mul_le_mul_of_nonneg_right hle hscale.le
  have habove : (m : ℚ) * 2 ^ e < 2 ^ ((m.log2 : ℤ) + e + 1) := by
    have hexp : (m.log2 : ℤ) + e + 1 = ((m.log2 + 1 : ℕ) : ℤ) + e := by push_cast; ring
    rw [hexp, zpow_add₀ htwo, zpow_natCast]
    have hlt : (m : ℚ) < ((2 ^ (m.log2 + 1) : ℕ) : ℚ) := by exact_mod_cast Nat.lt_log2_self
    push_cast at hlt
    exact mul_lt_mul_of_pos_right hlt hscale
  rw [leadingPlace_eq]
  obtain ⟨hle₁, h₁⟩ := raised_spec (hest.trans hbelow)
  obtain ⟨hle₂, h₂⟩ := raised_spec h₁
  obtain ⟨hle₃, h₃⟩ := raised_spec h₂
  refine ⟨h₃, habove.trans_le (hest'.trans (zpow_le_zpow_right₀ hone ?_))⟩
  omega

/-- The search ends on a grid that has a point, if one of those it goes over has. -/
theorem firstPlace_spec {r : Rounding} {top : ℤ} {fuel tried last : ℕ} (hlast : tried ≤ last)
    (hfuel : last < tried + fuel) (hfound : ∃ d, onPlace? r (top - last) = some d) :
    ∃ d t, t ≤ last ∧ firstPlace r top fuel tried = (d, top - (t : ℕ)) ∧
      onPlace? r (top - (t : ℕ)) = some d := by
  induction fuel generalizing tried with
  | zero => omega
  | succ fuel ih =>
    rw [firstPlace]
    cases hhere : onPlace? r (top - tried) with
    | some d => exact ⟨d, tried, hlast, rfl, hhere⟩
    | none =>
      have hne : tried ≠ last := by
        rintro rfl
        obtain ⟨d, hd⟩ := hfound
        rw [hhere] at hd
        cases hd
      exact ih (by omega) (by omega)

/-- Zeros moved into the exponent leave the decimal the same. -/
theorem dropZeros_spec (fuel : ℕ) {d : ℕ} (hd : 0 < d) (k : ℤ) :
    0 < (dropZeros fuel (d, k)).1 ∧ (dropZeros fuel (d, k)).1 ≤ d ∧
      ((dropZeros fuel (d, k)).1 : ℚ) * 10 ^ (dropZeros fuel (d, k)).2 = d * 10 ^ k := by
  induction fuel generalizing d k with
  | zero => exact ⟨hd, le_refl d, rfl⟩
  | succ fuel ih =>
    rw [dropZeros]
    split
    · rename_i h
      have hdiv : 10 * (d / 10) = d := Nat.mul_div_cancel' (Nat.dvd_of_mod_eq_zero h.2)
      obtain ⟨hpos, hle, hvalue⟩ := ih (d := d / 10) (by omega) (k + 1)
      refine ⟨hpos, by omega, ?_⟩
      have hcast : (d : ℚ) = 10 * ((d / 10 : ℕ) : ℚ) := by exact_mod_cast hdiv.symm
      rw [hvalue, hcast, zpow_add_one₀ (by norm_num)]
      ring
    · exact ⟨hd, le_refl d, rfl⟩

/-- The points of the last grid are closer together than a quarter of the double's step. -/
theorem last_grid_fine (hm : 1 ≤ m) (hc : IsCanonical m e) :
    (10 : ℚ) ^ (leadingPlace m e - (17 : ℕ)) ≤ 2 ^ (e - 2) := by
  obtain ⟨hlead, -⟩ := leadingPlace_spec hm hc
  have hscale := two_zpow_pos e
  have htwo : (2 : ℚ) ≠ 0 := by norm_num
  have hten : (10 : ℚ) ≠ 0 := by norm_num
  have hbelow : (m : ℚ) < 2 ^ 53 := by exact_mod_cast hc.below
  have hmul : (m : ℚ) * 2 ^ e ≤ 2 ^ 53 * 2 ^ e :=
    mul_le_mul_of_nonneg_right hbelow.le hscale.le
  rw [zpow_sub₀ hten, zpow_sub₀ htwo, div_le_div_iff₀ (by positivity) (by positivity)]
  norm_num at hmul ⊢
  linarith

/-- What rounds to a positive double is positive. -/
theorem pos_of_rounds (hm : 1 ≤ m) {d : ℕ} (h : Rounds m e (d * 10 ^ p)) : 0 < d := by
  have hlow := (half_le_low hm e).trans h.low
  have hge : (1 : ℚ) ≤ m := by exact_mod_cast hm
  refine Nat.pos_of_ne_zero fun hzero => ?_
  rw [hzero, Nat.cast_zero, zero_mul, zero_div] at hlow
  linarith

theorem digits_of_rounds (hm : 1 ≤ m) (hc : IsCanonical m e) {d t : ℕ} (ht : t ≤ 17)
    (h : Rounds m e (d * 10 ^ (leadingPlace m e - (t : ℕ)))) : d < 10 ^ 21 := by
  obtain ⟨-, hlead⟩ := leadingPlace_spec hm hc
  have hscale := two_zpow_pos e
  have hstep := ten_zpow_pos (leadingPlace m e - (t : ℕ))
  have hten : (10 : ℚ) ≠ 0 := by norm_num
  have hhigh := h.high
  have hge : (1 : ℚ) ≤ m := by exact_mod_cast hm
  rw [div_le_iff₀ hscale] at hhigh
  have htwice : (d : ℚ) * 10 ^ (leadingPlace m e - (t : ℕ)) < 2 * 10 ^ (leadingPlace m e + 3) := by
    have hmul : ((m : ℚ) + 1 / 2) * 2 ^ e ≤ 2 * (m * 2 ^ e) := by nlinarith
    linarith
  have hgrid : (10 : ℚ) ^ (leadingPlace m e + 3) ≤ 10 ^ 20 * 10 ^ (leadingPlace m e - (t : ℕ)) := by
    rw [← zpow_natCast, ← zpow_add₀ hten]
    exact zpow_le_zpow_right₀ (by norm_num) (by push_cast; omega)
  have hlt : (d : ℚ) * 10 ^ (leadingPlace m e - (t : ℕ)) <
      10 ^ 21 * 10 ^ (leadingPlace m e - (t : ℕ)) := by
    norm_num at hgrid ⊢
    linarith
  have hcancel := lt_of_mul_lt_mul_right hlt hstep.le
  exact_mod_cast hcancel

/-- The shortest decimal rounds to the double. -/
theorem shortest_spec (hm : 1 ≤ m) (hc : IsCanonical m e) :
    0 < (shortest m e).1 ∧ (shortest m e).1 < 10 ^ 21 ∧
      Rounds m e ((shortest m e).1 * 10 ^ (shortest m e).2) := by
  have hlast := isSome_onPlace? hm (last_grid_fine hm hc)
  obtain ⟨d, t, ht, hfirst, hfound⟩ :=
    firstPlace_spec (Nat.zero_le 17) (by decide : 17 < 0 + 18) hlast
  have hrounds := rounds_of_onPlace? hfound
  have hsmall := digits_of_rounds hm hc (by omega) hrounds
  obtain ⟨hpos, hle, hvalue⟩ := dropZeros_spec 20 (pos_of_rounds hm hrounds) (leadingPlace m e - (t : ℕ))
  unfold shortest
  rw [hfirst, hvalue]
  exact ⟨hpos, lt_of_le_of_lt hle hsmall, hrounds⟩

end

end RouteDocs.Binary64
