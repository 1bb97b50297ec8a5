import RouteDocs.Text.Blank
import RouteDocs.Text.Letter

/-!
# Small forms

A character is turned into its small form by a table of runs. The table leads to
letters only: no sign of ASCII and no blank is the small form of another
character.

Results:
* `lowerAll_append`, `lowerAll_cons`: small forms are written character by character.
* `eq_of_mem_smallForm`: a sign comes from itself alone.
* `isBlank_of_mem_smallForm`: a character that is no blank is not turned into one.
* `dropFolded?_eq_some_iff`: what a literal matches without regard to case.
-/
namespace RouteDocs.Text

/-- The small form of a character, written out. -/
def smallForm (c : Char) : List Char :=
  if c = Char.ofNat 0x130 then ['i', Char.ofNat 0x307] else [lower c]

theorem lowerAll_nil : lowerAll [] = [] := rfl

theorem lowerAll_cons (c : Char) (s : List Char) :
    lowerAll (c :: s) = smallForm c ++ lowerAll s :=
  List.flatMap_cons

theorem lowerAll_singleton (c : Char) : lowerAll [c] = smallForm c :=
  List.append_nil _

theorem lowerAll_append (s t : List Char) : lowerAll (s ++ t) = lowerAll s ++ lowerAll t :=
  List.flatMap_append

theorem smallForm_ne_nil (c : Char) : smallForm c ≠ [] := by
  rw [smallForm]
  split <;> simp

theorem lowerAll_eq_nil_iff {s : List Char} : lowerAll s = [] ↔ s = [] := by
  cases s with
  | nil => simp [lowerAll_nil]
  | cons c s => simp [lowerAll_cons, smallForm_ne_nil]

/-- The numbers that the table, the ASCII capitals and the dotted capital lead to; zero stands for
a number that belongs to no character. -/
def IsSmall (n : Nat) : Prop :=
  n = 0 ∨ 0x61 ≤ n ∧ n ≤ 0x7a ∨ n = 0x307 ∨
    ∃ run ∈ capitalRuns, run.2.2.2 ≤ n ∧ n ≤ run.2.2.2 + (run.2.1 - run.1)

theorem toNat_ofNat (n : Nat) : (Char.ofNat n).toNat = n ∨ (Char.ofNat n).toNat = 0 := by
  by_cases h : n.isValidChar
  · left
    rw [Char.ofNat, dif_pos h]
    rfl
  · right
    simp [Char.ofNat, h, Char.toNat]

theorem toNat_lower (c : Char) : lower c = c ∨ IsSmall (lower c).toNat := by
  rw [lower]
  dsimp only
  split
  · rename_i hlt
    have hall : ∀ n < 0x80, (Char.ofNat n).toLower = Char.ofNat n ∨
        0x61 ≤ (Char.ofNat n).toLower.toNat ∧ (Char.ofNat n).toLower.toNat ≤ 0x7a := by decide
    have h := hall c.toNat hlt
    rw [Char.ofNat_toNat] at h
    exact h.imp id fun h => .inr (.inl h)
  · split
    · rename_i first last step small hfind
      have hmem := List.mem_of_find?_eq_some hfind
      have hrange := List.find?_some hfind
      simp only [Bool.and_eq_true, decide_eq_true_eq] at hrange
      right
      rcases toNat_ofNat (small + (c.toNat - first)) with h | h
      · refine .inr (.inr (.inr ⟨_, hmem, ?_⟩))
        rw [h]
        dsimp only
        omega
      · exact .inl h
    · exact .inl rfl

theorem mem_smallForm {c x : Char} (h : x ∈ smallForm c) : x = c ∨ IsSmall x.toNat := by
  rw [smallForm] at h
  split at h
  · rw [List.mem_cons, List.mem_singleton] at h
    rcases h with rfl | rfl
    · exact .inr (.inr (.inl (by decide)))
    · exact .inr (.inr (.inr (.inl (by decide))))
  · rw [List.mem_singleton] at h
    subst h
    exact toNat_lower c

/-- A character before the small letters of ASCII comes from itself alone. -/
theorem eq_of_mem_smallForm {c x : Char} (hx : 0 < x.toNat ∧ x.toNat < 0x61)
    (h : x ∈ smallForm c) : x = c := by
  rcases mem_smallForm h with h | h | h | h | ⟨run, hrun, hle, -⟩
  · exact h
  · omega
  · omega
  · omega
  · have hall : ∀ run ∈ capitalRuns, 0x61 ≤ run.2.2.2 := by decide +kernel
    have := hall run hrun
    omega

/-- No number that the table leads to is that of a blank. -/
theorem isBlank_of_isSmall {x : Char} (h : IsSmall x.toNat) : isBlank x = false := by
  have hall : ∀ run ∈ capitalRuns, ∀ blanks ∈ [(0, 0x20), (0x85, 0x85), (0xa0, 0xa0),
      (0x1680, 0x1680), (0x2000, 0x2029), (0x202f, 0x202f), (0x205f, 0x205f), (0x3000, 0x3000)],
      blanks.2 < run.2.2.2 ∨ run.2.2.2 + (run.2.1 - run.1) < blanks.1 := by decide +kernel
  cases hx : isBlank x with
  | false => rfl
  | true =>
    simp only [isBlank, Bool.or_eq_true, Bool.and_eq_true, decide_eq_true_eq, beq_iff_eq] at hx
    rcases h with h | h | h | ⟨run, hrun, hle, hge⟩
    · omega
    · omega
    · omega
    · have := hall run hrun
      simp only [List.forall_mem_cons] at this
      omega

/-- A character that is no blank is not turned into one. -/
theorem isBlank_of_mem_smallForm {c x : Char} (hc : isBlank c = false) (h : x ∈ smallForm c) :
    isBlank x = false := by
  rcases mem_smallForm h with rfl | h
  · exact hc
  · exact isBlank_of_isSmall h

theorem isUpper_of_isBlank {c : Char} (h : isBlank c = true) : c.isUpper = false := by
  have hfirst : 'A'.val.toNat = 65 := by decide
  have hlast : 'Z'.val.toNat = 90 := by decide
  simp only [isBlank, Char.toNat, Bool.or_eq_true, Bool.and_eq_true, decide_eq_true_eq,
    beq_iff_eq] at h
  unfold Char.isUpper
  simp only [decide_eq_false_iff_not, ge_iff_le, UInt32.le_iff_toNat_le]
  omega

theorem isBlank_of_isUpper {c : Char} (h : c.isUpper = true) : isBlank c = false := by
  cases hb : isBlank c with
  | false => rfl
  | true =>
    rw [isUpper_of_isBlank hb] at h
    cases h

/-- A capital of ASCII has a letter of ASCII as its small form. -/
theorem smallForm_of_isUpper {c : Char} (h : c.isUpper = true) :
    ∃ d, smallForm c = [d] ∧ d.isAlpha = true := by
  have hall : ∀ n < 0x80, (Char.ofNat n).isUpper = true →
      (lower (Char.ofNat n)).isAlpha = true ∧ Char.ofNat n ≠ Char.ofNat 0x130 := by decide
  have hlt : c.toNat < 0x80 := by
    have hlast : 'Z'.val.toNat = 90 := by decide
    unfold Char.isUpper at h
    simp only [decide_eq_true_eq, ge_iff_le, UInt32.le_iff_toNat_le] at h
    simp only [Char.toNat]
    omega
  have hc := hall c.toNat hlt
  rw [Char.ofNat_toNat] at hc
  exact ⟨lower c, by rw [smallForm, if_neg (hc h).2], (hc h).1⟩

/-- Where the last character is no blank, that of the small form is none. -/
theorem isBlank_getLast?_lowerAll {s : List Char} (h : ∀ c ∈ s.getLast?, isBlank c = false) :
    ∀ x ∈ (lowerAll s).getLast?, isBlank x = false := by
  intro x hx
  rcases List.eq_nil_or_concat s with rfl | ⟨u, c, rfl⟩
  · cases hx
  · rw [List.concat_eq_append, lowerAll_append, lowerAll_singleton, List.getLast?_append] at hx
    have hlast := List.getLast?_eq_some_getLast (smallForm_ne_nil c)
    rw [hlast, Option.some_or, Option.mem_some_iff] at hx
    refine isBlank_of_mem_smallForm (h c (by simp)) ?_
    rw [← hx]
    exact List.getLast_mem _

/-! ## Matches without regard to case -/

theorem dropFolded?_eq_some_iff {m s rest : List Char} :
    dropFolded? m s = some rest ↔
      ∃ w, s = w ++ rest ∧ w.map foldCase = m.map foldCase := by
  induction m generalizing s with
  | nil =>
    simp only [dropFolded?, Option.some.injEq, List.map_nil, List.map_eq_nil_iff]
    constructor
    · rintro rfl
      exact ⟨[], rfl, rfl⟩
    · rintro ⟨w, rfl, rfl⟩
      rfl
  | cons p m ih =>
    cases s with
    | nil =>
      simp [dropFolded?]
    | cons c s =>
      rw [dropFolded?]
      split
      · rename_i hp
        rw [ih]
        constructor
        · rintro ⟨w, rfl, hw⟩
          exact ⟨c :: w, rfl, by rw [List.map_cons, List.map_cons, hp, hw]⟩
        · rintro ⟨_ | ⟨d, w⟩, heq, hw⟩
          · cases hw
          · obtain ⟨rfl, rfl⟩ := List.cons.inj heq
            exact ⟨w, rfl, (List.cons.inj hw).2⟩
      · rename_i hp
        constructor
        · intro h
          cases h
        · rintro ⟨_ | ⟨d, w⟩, heq, hw⟩
          · cases hw
          · obtain ⟨rfl, rfl⟩ := List.cons.inj heq
            exact absurd (List.cons.inj hw).1.symm hp

end RouteDocs.Text
