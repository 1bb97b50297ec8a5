import RouteDocs.Json.Token
import RouteDocs.Number.Numeral
import RouteDocs.Proofs.Number.Shortest

/-!
# Numbers of a JSON text

A number is written as digits, after which a fraction and an exponent may come.
The reader takes all of it if what follows cannot go on with it. The shortest
decimal of a double is written so in one of four ways, and each is read as a
decimal of the same value.

Results:
* `readNumber?_int`, `readNumber?_real`: what the reader makes of a numeral.
* `exists_numeral`: a decimal is written as a numeral of the same value.
* `readNumber?_formatDecimal`: a double that was written is read back.
-/
namespace RouteDocs.Json

open Text (Symbol)

/-! ## Digits -/

def AreDigits (ds : List Char) : Prop := ∀ c ∈ ds, c.isDigit = true

/-- Symbols that do not go on with a row of digits. -/
def NoDigit (s : List Symbol) : Prop := ∀ c rest, s = .char c :: rest → c.isDigit = false

/-- Symbols that may follow a value in what is written: a comma, the end of a line, or none. -/
def EndsValue (s : List Symbol) : Prop := ∀ c rest, s = .char c :: rest → c = ',' ∨ c = '\n'

theorem EndsValue.noDigit {s : List Symbol} (h : EndsValue s) : NoDigit s := by
  intro c rest hs
  rcases h c rest hs with rfl | rfl <;> rfl

theorem AreDigits.append {ds es : List Char} (hd : AreDigits ds) (he : AreDigits es) :
    AreDigits (ds ++ es) := by
  intro c hc
  rcases List.mem_append.1 hc with h | h
  · exact hd c h
  · exact he c h

theorem areDigits_replicate (n : ℕ) : AreDigits (List.replicate n '0') := by
  intro c hc
  rw [List.eq_of_mem_replicate hc]
  rfl

theorem areDigits_toDigits (n : ℕ) : AreDigits (Nat.toDigits 10 n) := fun _ hc =>
  Nat.isDigit_of_mem_toDigits (by decide) (by decide) hc

theorem readDigits_eq {ds : List Char} {rest : List Symbol} (hd : AreDigits ds)
    (hrest : NoDigit rest) (value count : ℕ) :
    readDigits value count (ds.map .char ++ rest) =
      (Nat.ofDigitChars 10 ds value, count + ds.length, rest) := by
  induction ds generalizing value count with
  | nil =>
    rw [List.map_nil, List.nil_append, Nat.ofDigitChars_nil]
    cases rest with
    | nil => rfl
    | cons s rest =>
      cases s with
      | broken => rfl
      | char c =>
        rw [readDigits, hrest c rest rfl]
        rfl
  | cons c ds ih =>
    obtain ⟨hc, hds⟩ := List.forall_mem_cons.1 hd
    rw [List.map_cons, List.cons_append, readDigits, if_pos hc, ih hds, Nat.ofDigitChars_cons,
      Nat.mul_comm 10, List.length_cons]
    congr 2
    omega

/-- The digits of a positive number start with no zero. -/
theorem head?_toDigits {n : ℕ} (hn : 0 < n) : (Nat.toDigits 10 n).head? ≠ some '0' := by
  induction n using Nat.strongRecOn with
  | ind n ih =>
    by_cases hsmall : n < 10
    · rw [Nat.toDigits_of_lt_base hsmall]
      simp only [List.head?_cons, ne_eq, Option.some.injEq, Nat.digitChar_eq_zero]
      omega
    · rw [Nat.toDigits_of_base_le (by decide) (by omega),
        List.head?_append_of_ne_nil _ Nat.toDigits_ne_nil]
      exact ih (n / 10) (by omega) (by omega)

/-! ## Numerals -/

/-- The digits before a point: a single zero, or digits that start with no zero. -/
structure IsWhole (ds : List Char) : Prop where
  digits : AreDigits ds
  some_digit : ds ≠ []
  zero_alone : ds.head? = some '0' → ds = ['0']

def fractionChars : List Char → List Char
  | [] => []
  | c :: ds => '.' :: c :: ds

def exponentChars : Option ℤ → List Char
  | none => []
  | some x => 'e' :: ((if x < 0 then ['-'] else []) ++ Nat.toDigits 10 x.natAbs)

def numeralChars (whole fraction : List Char) (exponent : Option ℤ) : List Char :=
  whole ++ (fractionChars fraction ++ exponentChars exponent)

theorem isWhole_zero : IsWhole ['0'] :=
  ⟨areDigits_replicate 1, List.cons_ne_nil _ _, fun _ => rfl⟩

theorem isWhole_toDigits (n : ℕ) : IsWhole (Nat.toDigits 10 n) := by
  refine ⟨areDigits_toDigits n, Nat.toDigits_ne_nil, fun hhead => ?_⟩
  by_cases hn : 0 < n
  · exact absurd hhead (head?_toDigits hn)
  · have hzero : n = 0 := by omega
    subst hzero
    rfl

/-- A part of digits that start with no zero. -/
theorem isWhole_of_head? {ds : List Char} (hd : AreDigits ds) (hne : ds ≠ [])
    (hhead : ds.head? ≠ some '0') : IsWhole ds :=
  ⟨hd, hne, fun h => absurd h hhead⟩

section
variable {whole fraction : List Char} {rest : List Symbol}

theorem readWhole?_eq (hw : IsWhole whole) (hrest : NoDigit rest) :
    readWhole? (whole.map .char ++ rest) = some (Nat.ofDigitChars 10 whole 0, rest) := by
  obtain ⟨hd, hne, hzero⟩ := hw
  by_cases hhead : whole.head? = some '0'
  · rw [hzero hhead]
    cases rest with
    | nil => rfl
    | cons s rest =>
      cases s with
      | broken => rfl
      | char c =>
        have hc := hrest c rest rfl
        simp only [List.map_cons, List.map_nil, List.cons_append, List.nil_append, readWhole?, hc]
        rfl
  · have hread := readDigits_eq hd hrest 0 0
    have hcount : 0 + whole.length ≠ 0 := by
      have := List.length_pos_of_ne_nil hne
      omega
    obtain ⟨c, ds, rfl⟩ := List.exists_cons_of_ne_nil hne
    have hc : c ≠ '0' := fun h => hhead (by rw [h]; rfl)
    rw [List.map_cons, List.cons_append] at hread ⊢
    unfold readWhole?
    split
    · rename_i heq
      cases heq
      exact absurd rfl hc
    · rw [hread]
      exact if_neg hcount

theorem readFraction?_eq (hf : AreDigits fraction) (hrest : NoDigit rest)
    (hpoint : ∀ more, rest ≠ .char '.' :: more) (n : ℕ) :
    readFraction? n ((fractionChars fraction).map .char ++ rest) =
      some (if fraction = [] then none
        else some (Nat.ofDigitChars 10 fraction n, fraction.length), rest) := by
  cases fraction with
  | nil =>
    rw [fractionChars, List.map_nil, List.nil_append, if_pos rfl]
    cases rest with
    | nil => rfl
    | cons s rest =>
      cases s with
      | broken => rfl
      | char c =>
        have hc : c ≠ '.' := fun h => hpoint rest (by rw [h])
        rw [readFraction?, if_neg hc]
  | cons c ds =>
    have hread := readDigits_eq hf hrest n 0
    rw [Nat.zero_add] at hread
    rw [fractionChars, List.map_cons, List.cons_append, readFraction?, if_pos rfl, hread,
      if_neg (List.cons_ne_nil c ds)]
    exact if_neg (List.length_cons ▸ Nat.succ_ne_zero _)

theorem readExponent?_negative (s : List Symbol) :
    readExponent? (.char 'e' :: .char '-' :: s) =
      let (n, count, more) := readDigits 0 0 s
      if count = 0 then none else some (some (-(n : ℤ)), more) :=
  rfl

theorem readExponent?_digit {c : Char} (hc : c.isDigit = true) (s : List Symbol) :
    readExponent? (.char 'e' :: .char c :: s) =
      let (n, count, more) := readDigits 0 0 (.char c :: s)
      if count = 0 then none else some (some (n : ℤ), more) := by
  have hminus : c ≠ '-' := by
    rintro rfl
    cases hc
  have hplus : c ≠ '+' := by
    rintro rfl
    cases hc
  unfold readExponent?
  dsimp only
  split
  · split
    · rename_i heq
      cases heq
      exact absurd rfl hminus
    · rename_i heq
      cases heq
      exact absurd rfl hplus
    · rfl
  · rename_i h
    exact absurd (.inl rfl) h

theorem readExponent?_eq (hend : EndsValue rest) (exponent : Option ℤ) :
    readExponent? ((exponentChars exponent).map .char ++ rest) = some (exponent, rest) := by
  cases exponent with
  | none =>
    rw [exponentChars, List.map_nil, List.nil_append]
    cases rest with
    | nil => rfl
    | cons s rest =>
      cases s with
      | broken => rfl
      | char c =>
        have hc : ¬ (c = 'e' ∨ c = 'E') := by
          rcases hend c rest rfl with rfl | rfl <;> decide
        unfold readExponent?
        exact if_neg hc
  | some x =>
    have hread := readDigits_eq (areDigits_toDigits x.natAbs) hend.noDigit 0 0
    have hcount : 0 + (Nat.toDigits 10 x.natAbs).length ≠ 0 := by
      have := List.length_pos_of_ne_nil (Nat.toDigits_ne_nil (n := x.natAbs) (b := 10))
      omega
    rw [Nat.ofDigitChars_ten_toDigits] at hread
    rw [exponentChars, List.map_cons, List.cons_append]
    by_cases hx : x < 0
    · have hvalue : -(x.natAbs : ℤ) = x := by omega
      rw [if_pos hx, List.singleton_append, List.map_cons, List.cons_append,
        readExponent?_negative, hread]
      dsimp only
      rw [if_neg hcount, hvalue]
    · have hvalue : (x.natAbs : ℤ) = x := by omega
      have hdigits := areDigits_toDigits x.natAbs
      rw [if_neg hx, List.nil_append]
      obtain ⟨c, ds, hds⟩ :=
        List.exists_cons_of_ne_nil (Nat.toDigits_ne_nil (n := x.natAbs) (b := 10))
      rw [hds] at hread hcount hdigits ⊢
      rw [List.map_cons, List.cons_append] at hread ⊢
      rw [readExponent?_digit (hdigits c (List.mem_cons_self ..)), hread]
      dsimp only
      rw [if_neg hcount, hvalue]

/-- Digits alone are an integer. -/
theorem readNumber?_int (negative : Bool) (hw : IsWhole whole) (hend : EndsValue rest) :
    readNumber? negative (whole.map .char ++ rest) =
      some (.int (Numeral.signed negative (Nat.ofDigitChars 10 whole 0)), rest) := by
  have hpoint : ∀ more, rest ≠ .char '.' :: more := by
    rintro more rfl
    rcases hend '.' more rfl with h | h <;> cases h
  have hnone : AreDigits [] := fun _ hc => absurd hc List.not_mem_nil
  have hfraction := readFraction?_eq hnone hend.noDigit hpoint (Nat.ofDigitChars 10 whole 0)
  have hexponent := readExponent?_eq hend none
  rw [fractionChars, List.map_nil, List.nil_append] at hfraction
  rw [exponentChars, List.map_nil, List.nil_append] at hexponent
  unfold readNumber?
  rw [readWhole?_eq hw hend.noDigit]
  simp only [Option.bind_eq_bind, Option.bind_some, hfraction, hexponent, if_true]
  rfl

/-- A numeral with a fraction or an exponent is a double. -/
theorem readNumber?_real (negative : Bool) (hw : IsWhole whole) (hf : AreDigits fraction)
    {exponent : Option ℤ} (hreal : fraction ≠ [] ∨ exponent ≠ none) (hend : EndsValue rest) :
    readNumber? negative ((numeralChars whole fraction exponent).map .char ++ rest) =
      some (.real (Binary64.ofDecimal negative (Nat.ofDigitChars 10 (whole ++ fraction) 0)
        (exponent.getD 0 - (fraction.length : ℕ))), rest) := by
  -- no part goes on with a digit of the part before
  have hafter : NoDigit ((exponentChars exponent).map .char ++ rest) ∧
      ∀ more, (exponentChars exponent).map .char ++ rest ≠ .char '.' :: more := by
    cases exponent with
    | none =>
      refine ⟨hend.noDigit, ?_⟩
      rintro more h
      rcases hend '.' more h with h | h <;> cases h
    | some x =>
      constructor
      · intro c more h
        cases h
        rfl
      · intro more h
        cases h
  have hbefore : NoDigit ((fractionChars fraction).map .char ++
      ((exponentChars exponent).map .char ++ rest)) := by
    cases fraction with
    | nil => exact hafter.1
    | cons c ds =>
      intro d more h
      cases h
      rfl
  have hfraction := readFraction?_eq hf hafter.1 hafter.2 (Nat.ofDigitChars 10 whole 0)
  have hexponent := readExponent?_eq hend exponent
  unfold readNumber?
  rw [numeralChars, List.map_append, List.append_assoc, List.map_append, List.append_assoc,
    readWhole?_eq hw hbefore]
  simp only [Option.bind_eq_bind, Option.bind_some, hfraction, hexponent]
  rw [Nat.ofDigitChars_append]
  cases fraction with
  | nil =>
    cases exponent with
    | none =>
      rcases hreal with h | h
      · exact absurd rfl h
      · exact absurd rfl h
    | some x => rfl
  | cons c ds => rfl

end

/-! ## Decimals -/

/-- A numeral that stands for a decimal, perhaps with more zeros at its end. -/
structure Denotes (whole fraction : List Char) (exponent : Option ℤ) (d : ℕ) (k : ℤ) : Prop where
  isWhole : IsWhole whole
  areDigits : AreDigits fraction
  isReal : fraction ≠ [] ∨ exponent ≠ none
  value : ∃ zeros : ℕ, zeros ≤ 16 ∧ Nat.ofDigitChars 10 (whole ++ fraction) 0 = d * 10 ^ zeros ∧
    exponent.getD 0 - (fraction.length : ℕ) = k - (zeros : ℕ)

section
variable {d : ℕ} {k : ℤ}

/-- All digits stand before the point. -/
theorem denotes_whole (hd : 0 < d) {n : ℕ} (hn : n ≤ 15) :
    Denotes (Nat.toDigits 10 d ++ List.replicate n '0') ['0'] none d n := by
  refine ⟨isWhole_of_head? ((areDigits_toDigits d).append (areDigits_replicate n)) ?_ ?_,
    areDigits_replicate 1, .inl (List.cons_ne_nil _ _), n + 1, by omega, ?_, ?_⟩
  · exact List.append_ne_nil_of_left_ne_nil Nat.toDigits_ne_nil _
  · rw [List.head?_append_of_ne_nil _ Nat.toDigits_ne_nil]
    exact head?_toDigits hd
  · have hzeros : List.replicate n '0' ++ ['0'] = List.replicate (n + 1) '0' :=
      List.replicate_succ'.symm
    rw [List.append_assoc, hzeros, Nat.ofDigitChars_append, Nat.ofDigitChars_ten_toDigits,
      Nat.ofDigitChars_replicate_zero, Nat.mul_comm]
  · simp only [Option.getD_none, List.length_singleton]
    omega

/-- The digits stand on both sides of the point. -/
theorem denotes_split (hd : 0 < d) {n : ℕ} (hn : 0 < n) {exponent : Option ℤ}
    (hreal : n < (Nat.toDigits 10 d).length ∨ exponent ≠ none)
    (hvalue : exponent.getD 0 - ((Nat.toDigits 10 d).length - n : ℕ) = k) :
    Denotes ((Nat.toDigits 10 d).take n) ((Nat.toDigits 10 d).drop n) exponent d k := by
  have hdigits := areDigits_toDigits d
  refine ⟨isWhole_of_head? (fun c hc => hdigits c (List.mem_of_mem_take hc)) ?_ ?_,
    fun c hc => hdigits c (List.mem_of_mem_drop hc), ?_, 0, by omega, ?_, ?_⟩
  · rw [ne_eq, List.take_eq_nil_iff]
    rintro (h | h)
    · omega
    · exact Nat.toDigits_ne_nil h
  · rw [List.head?_take, if_neg hn.ne']
    exact head?_toDigits hd
  · refine hreal.imp_left fun h => ?_
    rw [ne_eq, List.drop_eq_nil_iff]
    omega
  · rw [List.take_append_drop, Nat.ofDigitChars_ten_toDigits, Nat.pow_zero, Nat.mul_one]
  · rw [List.length_drop, Nat.cast_zero, sub_zero]
    exact hvalue

/-- All digits stand after the point, behind so many zeros. -/
theorem denotes_fraction {n : ℕ} (hvalue : (n + (Nat.toDigits 10 d).length : ℕ) = -k) :
    Denotes ['0'] (List.replicate n '0' ++ Nat.toDigits 10 d) none d k := by
  refine ⟨isWhole_zero, (areDigits_replicate n).append (areDigits_toDigits d),
    .inl (List.append_ne_nil_of_right_ne_nil _ Nat.toDigits_ne_nil), 0, by omega, ?_, ?_⟩
  · have hzeros : ['0'] ++ List.replicate n '0' = List.replicate (n + 1) '0' := rfl
    rw [← List.append_assoc, hzeros, Nat.ofDigitChars_append, Nat.ofDigitChars_replicate_zero,
      Nat.mul_zero, Nat.ofDigitChars_ten_toDigits, Nat.pow_zero, Nat.mul_one]
  · rw [List.length_append, List.length_replicate, Option.getD_none]
    omega

theorem toList_point (whole : List Char) {fraction : List Char} (hf : fraction ≠ []) :
    (String.ofList whole ++ "." ++ String.ofList fraction).toList =
      numeralChars whole fraction none := by
  obtain ⟨c, ds, rfl⟩ := List.exists_cons_of_ne_nil hf
  simp only [String.toList_append, String.toList_ofList, numeralChars, fractionChars, exponentChars,
    List.append_nil, List.append_assoc]
  rfl

/-- A numeral with an exponent, written without a plus and with as few digits as there are. -/
theorem toList_exponent (whole fraction : List Char) (x : ℤ) :
    (String.ofList whole ++ (match fraction with
        | [] => ""
        | more => "." ++ String.ofList more) ++ "e" ++
      (if x < 0 then "-" else if false then "+" else "") ++
      String.ofList (List.replicate (1 - (toString x.natAbs).length) '0') ++
      toString x.natAbs).toList = numeralChars whole fraction (some x) := by
  have hsize : (toString x.natAbs).toList = Nat.toDigits 10 x.natAbs := by
    rw [Nat.toString_eq_repr, Nat.toList_repr]
  -- an exponent has a digit, so none is put before it
  have hpadding : 1 - (toString x.natAbs).length = 0 := by
    have hlength : 0 < (Nat.toDigits 10 x.natAbs).length := Nat.length_toDigits_pos
    rw [← String.length_toList, hsize]
    omega
  have hsign : (if x < 0 then "-" else "").toList = if x < 0 then ['-'] else [] := by
    split <;> rfl
  simp only [hpadding, String.toList_append, String.toList_ofList, numeralChars, exponentChars, hsize,
    List.replicate_zero, List.append_nil, Bool.false_eq_true, if_false, List.append_assoc, hsign]
  cases fraction with
  | nil => rfl
  | cons c more =>
    simp only [String.toList_append, String.toList_ofList]
    rfl

/-- A decimal in a tree file is a numeral that stands for it. -/
theorem exists_numeral (hd : 0 < d) (k : ℤ) :
    ∃ whole fraction exponent, Denotes whole fraction exponent d k ∧
      (Binary64.formatDecimal Binary64.fileFormat d k).toList =
        numeralChars whole fraction exponent := by
  have hpos : 0 < (Nat.toDigits 10 d).length := Nat.length_toDigits_pos
  have hds : (toString d).toList = Nat.toDigits 10 d := by
    rw [Nat.toString_eq_repr, Nat.toList_repr]
  unfold Binary64.formatDecimal
  simp only [hds, Binary64.fileFormat]
  generalize hlead : k + ((Nat.toDigits 10 d).length : ℤ) - 1 = lead
  split
  · rename_i hplain
    split
    · rename_i hk
      have hden : Denotes (Nat.toDigits 10 d ++ List.replicate k.toNat '0') ['0'] none d
          (k.toNat : ℤ) := denotes_whole hd (by omega)
      rw [Int.toNat_of_nonneg hk] at hden
      refine ⟨_, _, _, hden, ?_⟩
      rw [String.toList_append, String.toList_ofList]
      rfl
    · split
      · have hden : Denotes ((Nat.toDigits 10 d).take (lead.toNat + 1))
            ((Nat.toDigits 10 d).drop (lead.toNat + 1)) none d k :=
          denotes_split hd (by omega) (.inl (by omega)) (by rw [Option.getD_none]; omega)
        exact ⟨_, _, _, hden, toList_point _ (hden.isReal.resolve_right fun h => h rfl)⟩
      · have hden : Denotes ['0'] (List.replicate (-lead - 1).toNat '0' ++ Nat.toDigits 10 d) none
            d k := denotes_fraction (by omega)
        exact ⟨_, _, _, hden, toList_point ['0'] (hden.isReal.resolve_right fun h => h rfl)⟩
  · have hden : Denotes ((Nat.toDigits 10 d).take 1) ((Nat.toDigits 10 d).drop 1) (some lead) d k :=
      denotes_split hd (by omega) (.inr (Option.some_ne_none lead))
        (by rw [Option.getD_some]; omega)
    exact ⟨_, _, _, hden, toList_exponent _ _ lead⟩

/-- A positive double that was written is read back. -/
theorem readNumber?_formatDecimal (negative : Bool) {m : ℕ} {e : ℤ} (hm : 1 ≤ m)
    (hc : Binary64.IsCanonical m e) {rest : List Symbol} (hend : EndsValue rest) :
    readNumber? negative ((Binary64.formatDecimal Binary64.fileFormat (Binary64.shortest m e).1
      (Binary64.shortest m e).2).toList.map .char ++ rest) =
      some (.real (.finite negative m e), rest) := by
  obtain ⟨hpos, hsmall, hrounds⟩ := Binary64.shortest_spec hm hc
  obtain ⟨whole, fraction, exponent, ⟨hwhole, hfraction, hreal, zeros, hzeros, hdigits, hplace⟩,
    hchars⟩ := exists_numeral hpos (Binary64.shortest m e).2
  rw [hchars, readNumber?_real negative hwhole hfraction hreal hend, hdigits, hplace]
  have hten : (10 : ℚ) ≠ 0 := by norm_num
  have hsize : (Binary64.shortest m e).1 * 10 ^ zeros < 2 ^ 200 :=
    calc (Binary64.shortest m e).1 * 10 ^ zeros
        ≤ 10 ^ 21 * 10 ^ 16 := Nat.mul_le_mul hsmall.le (Nat.pow_le_pow_right (by decide) hzeros)
      _ < 2 ^ 200 := by norm_num
  -- zeros at the end leave the value the same
  have hvalue : (((Binary64.shortest m e).1 * 10 ^ zeros : ℕ) : ℚ) *
      10 ^ ((Binary64.shortest m e).2 - (zeros : ℕ)) =
      (Binary64.shortest m e).1 * 10 ^ (Binary64.shortest m e).2 := by
    push_cast
    rw [zpow_sub₀ hten, zpow_natCast]
    field_simp
  rw [Binary64.ofDecimal_eq negative hm hc (Nat.mul_pos hpos (Nat.pow_pos (by decide))) hsize
    (hvalue ▸ hrounds)]

end

end RouteDocs.Json
