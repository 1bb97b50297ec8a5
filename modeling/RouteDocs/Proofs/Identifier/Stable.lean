import RouteDocs.Config.Reader
import RouteDocs.Proofs.Identifier

/-!
# Identifiers of identifiers

Every text has an identifier, and an identifier is its own, unless the prefix for
texts without letters has capitals. Of small forms no more is used than that they
have no capitals and that small letters, digits and the two signs that
identifiers hold are written as they are: what else a small form does to a text,
such as to the letter at the end of a word, makes no difference.

Results:
* `lowers_lowerAll`: the small forms are of this kind.
* `normalizeBy_of_isSmall`: an identifier without capitals is its own identifier.
* `identifies_normalize`: every text has an identifier, which is its own.
-/
namespace RouteDocs.Identifier

/-- A small letter, a digit or one of the two signs of identifiers. -/
def isSmall (c : Char) : Bool :=
  c.isLower || c.isDigit || c == '-' || c == '_'

/-- A way to write texts in small letters. -/
structure Lowers (lower : List Char → List Char) : Prop where
  noCapital : ∀ s, ∀ c ∈ lower s, c.isUpper = false
  keeps : ∀ s, (∀ c ∈ s, isSmall c = true) → lower s = s

/-- The identifier of a text, where `lower` writes texts in small letters. -/
def normalizeBy (lower : List Char → List Char) (fallback s : String) : String :=
  let plain := Text.trim (dropSpans '&' ';' none (dropSpans '<' '>' none (lower s.toList)))
  let lettered := withLetter fallback.toList plain
  String.ofList (joinRuns false (lettered.dropWhile fun c => !isLetter c))

theorem normalizeBy_lowerAll : normalizeBy Text.lowerAll = normalize := rfl

/-! ## Characters of identifiers -/

theorem isSmall_of_isAllowed {c : Char} (h : isAllowed c = true) (hc : c.isUpper = false) :
    isSmall c = true := by
  unfold isAllowed Char.isAlphanum Char.isAlpha at h
  rwa [hc, Bool.false_or] at h

theorem toNat_lt_of_isSmall {c : Char} (h : isSmall c = true) : c.toNat < 0x80 := by
  unfold isSmall Char.isLower Char.isDigit at h
  simp only [Bool.or_eq_true, Bool.and_eq_true, decide_eq_true_eq, beq_iff_eq, ge_iff_le,
    UInt32.le_iff_toNat_le] at h
  simp only [Char.toNat]
  rcases h with ((h | h) | rfl) | rfl
  · exact Nat.lt_of_le_of_lt h.2 (by decide)
  · exact Nat.lt_of_le_of_lt h.2 (by decide)
  · decide
  · decide

/-- What holds of all characters of identifiers can be tested one by one. -/
theorem forall_isSmall {p : Char → Prop}
    (hall : ∀ n < 0x80, isSmall (Char.ofNat n) = true → p (Char.ofNat n)) {c : Char}
    (h : isSmall c = true) : p c := by
  have hc := hall c.toNat (toNat_lt_of_isSmall h)
  rw [Char.ofNat_toNat] at hc
  exact hc h

theorem isAllowed_of_isSmall {c : Char} (h : isSmall c = true) : isAllowed c = true :=
  forall_isSmall (p := fun c => isAllowed c = true) (by decide) h

theorem smallForm_of_isSmall {c : Char} (h : isSmall c = true) : Text.smallForm c = [c] :=
  forall_isSmall (p := fun c => Text.smallForm c = [c]) (by decide) h

theorem isBlank_of_isSmall {c : Char} (h : isSmall c = true) : Text.isBlank c = false :=
  forall_isSmall (p := fun c => Text.isBlank c = false) (by decide) h

theorem ne_of_isSmall {c : Char} (h : isSmall c = true) : c ≠ '<' ∧ c ≠ '&' :=
  forall_isSmall (p := fun c => c ≠ '<' ∧ c ≠ '&') (by decide) h

theorem toNat_of_isUpper {c : Char} (h : c.isUpper = true) : 0x41 ≤ c.toNat ∧ c.toNat ≤ 0x5a := by
  unfold Char.isUpper at h
  simp only [decide_eq_true_eq, ge_iff_le, UInt32.le_iff_toNat_le] at h
  exact h

/-- The small forms have no capitals and keep the characters of identifiers. -/
theorem lowers_lowerAll : Lowers Text.lowerAll where
  noCapital s c hc := by
    cases hupper : c.isUpper with
    | false => rfl
    | true =>
      have hrange := toNat_of_isUpper hupper
      obtain ⟨d, -, hd⟩ := List.mem_flatMap.1 hc
      obtain rfl : c = d := Text.eq_of_mem_smallForm (by omega) hd
      -- so a capital would be its own small form
      have hall : ∀ n < 0x80, (Char.ofNat n).isUpper = true →
          Char.ofNat n ∉ Text.smallForm (Char.ofNat n) := by decide
      have hnot := hall c.toNat (by omega)
      rw [Char.ofNat_toNat] at hnot
      exact absurd hd (hnot hupper)
  keeps s hs := by
    induction s with
    | nil => rfl
    | cons c s ih =>
      rw [List.forall_mem_cons] at hs
      rw [Text.lowerAll_cons, smallForm_of_isSmall hs.1, ih hs.2, List.singleton_append]

/-! ## What is left of a text -/

theorem mem_joinRuns {inRun : Bool} {s : List Char} {c : Char} (h : c ∈ joinRuns inRun s) :
    c = '-' ∨ c ∈ s := by
  induction s generalizing inRun with
  | nil => cases h
  | cons d s ih =>
    rw [joinRuns] at h
    split at h
    · rcases List.mem_cons.1 h with rfl | h
      · exact .inr List.mem_cons_self
      · exact (ih h).imp_right (List.mem_cons_of_mem _)
    · split at h
      · exact (ih h).imp_right (List.mem_cons_of_mem _)
      · rcases List.mem_cons.1 h with rfl | h
        · exact .inl rfl
        · exact (ih h).imp_right (List.mem_cons_of_mem _)

theorem joinRuns_eq_self {s : List Char} (h : ∀ c ∈ s, isAllowed c = true) :
    joinRuns false s = s := by
  induction s with
  | nil => rfl
  | cons c s ih =>
    rw [List.forall_mem_cons] at h
    rw [joinRuns_allowed h.1, ih h.2]

section
variable {lower : List Char → List Char}

/-- An identifier has no capitals if the prefix has none. -/
theorem isUpper_of_mem_normalizeBy (hlower : Lowers lower) {fallback : String}
    (hf : ∀ c ∈ fallback.toList, c.isUpper = false) (s : String) :
    ∀ c ∈ (normalizeBy lower fallback s).toList, c.isUpper = false := by
  intro c hc
  rw [normalizeBy, String.toList_ofList] at hc
  rcases mem_joinRuns hc with rfl | hc
  · decide
  have hplain {t : List Char} (ht : c ∈ Text.trim (dropSpans '&' ';' none
      (dropSpans '<' '>' none t))) : c ∈ t :=
    ((dropSpans_sublist none _).trans (dropSpans_sublist none t)).subset (Text.mem_of_mem_trim ht)
  have hmem := (List.dropWhile_sublist _).subset hc
  rw [withLetter] at hmem
  split at hmem
  · exact hlower.noCapital _ c (hplain hmem)
  · rcases List.mem_append.1 hmem with hmem | hmem
    · exact hf c hmem
    · exact hlower.noCapital _ c (hplain hmem)

/-- An identifier without capitals is its own identifier. -/
theorem normalizeBy_of_isSmall (hlower : Lowers lower) (fallback : String) {s : String}
    (hs : isWellFormed s = true) (hsmall : ∀ c ∈ s.toList, isSmall c = true) :
    normalizeBy lower fallback s = s := by
  obtain ⟨c, rest, heq, hc, -⟩ := isWellFormed_iff.1 hs
  have htags : '<' ∉ s.toList := fun h => (ne_of_isSmall (hsmall _ h)).1 rfl
  have hentities : '&' ∉ s.toList := fun h => (ne_of_isSmall (hsmall _ h)).2 rfl
  have htrim : Text.trim s.toList = s.toList :=
    Text.trim_eq_self (fun d hd => isBlank_of_isSmall (hsmall d (List.mem_of_head? hd)))
      fun d hd => isBlank_of_isSmall (hsmall d (List.mem_of_getLast? hd))
  have hletter : withLetter fallback.toList s.toList = s.toList := by
    rw [withLetter, heq, List.any_cons, hc, Bool.true_or, if_pos rfl]
  have hstart : (s.toList.dropWhile fun c => !isLetter c) = s.toList := by
    rw [heq, List.dropWhile_cons, hc]
    rfl
  rw [normalizeBy, hlower.keeps _ hsmall, dropSpans_of_not_hasSpan (not_hasSpan_of_notMem htags),
    dropSpans_of_not_hasSpan (not_hasSpan_of_notMem hentities), htrim, hletter, hstart,
    joinRuns_eq_self fun c hc => isAllowed_of_isSmall (hsmall c hc), String.ofList_toList]

end

/-! ## Ways to make identifiers -/

/-- A way to make identifiers makes one of a text, and makes the same one of that, if the prefix
for texts without letters has no capitals. -/
structure Identifies (make : String → String) (fallback s : String) : Prop where
  wellFormed : isWellFormed (make s) = true
  again : (∀ c ∈ fallback.toList, c.isUpper = false) → make (make s) = make s

theorem identifies_normalizeBy {lower : List Char → List Char} (hlower : Lowers lower)
    {fallback : String} (h : ∃ c ∈ fallback.toList, isLetter c = true) (s : String) :
    Identifies (normalizeBy lower fallback) fallback s := by
  have hform : isWellFormed (normalizeBy lower fallback s) = true :=
    isWellFormed_joinRuns (exists_letter_withLetter h _)
  refine ⟨hform, fun hf => normalizeBy_of_isSmall hlower fallback hform fun c hc => ?_⟩
  refine isSmall_of_isAllowed ?_ (isUpper_of_mem_normalizeBy hlower hf s c hc)
  rw [normalizeBy, String.toList_ofList] at hc
  exact isAllowed_of_mem_joinRuns hc

/-- The identifier of every text is an identifier and its own, for each prefix that is accepted:
for the small forms of this library, and for any other way to write texts in small letters. -/
theorem identifies_normalize {fallback : String}
    (h : Config.isFallback (.ofString fallback) = true) (s : String) :
    Identifies (normalize fallback) fallback s ∧
      ∀ lower, Lowers lower → Identifies (normalizeBy lower fallback) fallback s := by
  have hletter : ∃ c ∈ fallback.toList, isLetter c = true := by
    rw [Text.WideText.ofString, Text.WideText.ofChars] at h
    cases hchars : fallback.toList with
    | nil =>
      rw [hchars] at h
      cases h
    | cons c rest =>
      rw [hchars] at h
      exact ⟨c, List.mem_cons_self, h⟩
  have hnormal := identifies_normalizeBy lowers_lowerAll hletter s
  rw [normalizeBy_lowerAll] at hnormal
  exact ⟨hnormal, fun lower hlower => identifies_normalizeBy hlower hletter s⟩

/-- A text without letters, with an angle and an ampersand that open nothing, and a prefix of more
than letters. -/
theorem identifies_normalize_letterless :
    let fallback := "p 1:"
    let s := "<b>&amp;4 < 2 &"
    Config.isFallback (.ofString fallback) = true ∧ normalize fallback s = "p-1-4-2-" ∧
      isWellFormed (normalize fallback s) = true ∧
      normalize fallback (normalize fallback s) = normalize fallback s ∧
      Identifies (normalizeBy Text.lowerAll fallback) fallback s := by
  intro fallback s
  have hfallback : Config.isFallback (.ofString fallback) = true := by decide
  have hsmall : fallback.toList.any Char.isUpper = false := by decide
  obtain ⟨hmake, hall⟩ := identifies_normalize hfallback s
  have hagain := hmake.again fun c hc => Bool.eq_false_iff.2 (List.any_eq_false.1 hsmall c hc)
  exact ⟨hfallback, by decide, hmake.wellFormed, hagain, hall Text.lowerAll lowers_lowerAll⟩

end RouteDocs.Identifier
