import RouteDocs.Identifier
import RouteDocs.Proofs.Letter
import RouteDocs.Proofs.Text.Blank

/-!
# Identifiers of texts

The identifier of a text is made of what is left of it without tags and entities:
its small form, with every run of characters that are not allowed as one hyphen.

Results:
* `isAllowed_of_mem_normalize`: an identifier holds only characters that one may hold.
* `plain_eq`: tags and entities may be dropped before the small form is taken.
* `dropSpans_of_not_hasSpan`: text without spans is left as it is.
* `normalizeChars_eq`: the identifier of a text that begins with a capital and ends in no blank.
* `joinRuns_filter_eq_iff`: when characters that are not allowed can be left out beforehand.
* `isWellFormed_normalize`: with a letter to fall back on, every text has an identifier.
-/
namespace RouteDocs.Identifier

/-! ## Runs -/

theorem isAllowed_of_mem_joinRuns {inRun : Bool} {s : List Char} {c : Char}
    (h : c ∈ joinRuns inRun s) : isAllowed c = true := by
  induction s generalizing inRun with
  | nil => cases h
  | cons d rest ih =>
    rw [joinRuns] at h
    split at h
    · rename_i hd
      rcases List.mem_cons.1 h with rfl | h
      · exact hd
      · exact ih h
    · split at h
      · exact ih h
      · rcases List.mem_cons.1 h with rfl | h
        · decide
        · exact ih h

theorem isAllowed_of_mem_normalize {fallback s : String} {c : Char}
    (h : c ∈ (normalize fallback s).toList) : isAllowed c = true := by
  rw [normalize, String.toList_ofList] at h
  exact isAllowed_of_mem_joinRuns h

theorem joinRuns_allowed {c : Char} (hc : isAllowed c = true) (inRun : Bool) (s : List Char) :
    joinRuns inRun (c :: s) = c :: joinRuns false s := by
  rw [joinRuns, if_pos hc]

theorem joinRuns_start {c : Char} (hc : isAllowed c = false) (s : List Char) :
    joinRuns false (c :: s) = '-' :: joinRuns true s := by
  rw [joinRuns, hc]
  rfl

theorem joinRuns_more {c : Char} (hc : isAllowed c = false) (s : List Char) :
    joinRuns true (c :: s) = joinRuns true s := by
  rw [joinRuns, hc]
  rfl

/-- The runs of characters that are not allowed, an empty one where two allowed ones meet. -/
def runs (s : List Char) : List (List Char) :=
  s.splitOnP isAllowed

theorem runs_nil : runs [] = [[]] :=
  List.splitOnP_nil

theorem runs_allowed {c : Char} (hc : isAllowed c = true) (s : List Char) :
    runs (c :: s) = [] :: runs s := by
  rw [runs, List.splitOnP_cons_eq_if_modifyHead, if_pos hc, runs]

theorem runs_other {c : Char} (hc : isAllowed c = false) {s run : List Char}
    {more : List (List Char)} (h : runs s = run :: more) :
    runs (c :: s) = (c :: run) :: more := by
  rw [runs] at h ⊢
  rw [List.splitOnP_cons_eq_if_modifyHead, hc, h]
  rfl

/-- A run that is empty or keeps one of its characters. -/
def Kept (keep : Char → Bool) (run : List Char) : Prop :=
  run ≠ [] → ∃ c ∈ run, keep c = true

section
variable {keep : Char → Bool}

theorem joinRuns_filter_length (hkeep : ∀ c, isAllowed c = true → keep c = true) (s : List Char) :
    (joinRuns false (s.filter keep)).length ≤ (joinRuns false s).length ∧
      (joinRuns true (s.filter keep)).length ≤ (joinRuns true s).length ∧
      (joinRuns false (s.filter keep)).length ≤ (joinRuns true s).length + 1 := by
  induction s with
  | nil => simp [joinRuns]
  | cons c s ih =>
    obtain ⟨ihfree, ihrun, ihstart⟩ := ih
    cases hc : isAllowed c with
    | true =>
      rw [List.filter_cons_of_pos (hkeep c hc), joinRuns_allowed hc, joinRuns_allowed hc,
        joinRuns_allowed hc, joinRuns_allowed hc]
      simp only [List.length_cons]
      omega
    | false =>
      cases hk : keep c with
      | true =>
        rw [List.filter_cons_of_pos hk, joinRuns_start hc, joinRuns_start hc, joinRuns_more hc,
          joinRuns_more hc]
        simp only [List.length_cons]
        omega
      | false =>
        rw [List.filter_cons_of_neg (by simp [hk]), joinRuns_start hc, joinRuns_more hc]
        simp only [List.length_cons]
        omega

/-- Leaving out characters before the runs are joined makes no difference exactly if every run
keeps one. The other two cases: within a run, and after the start of a run that has been left out
so far. -/
theorem joinRuns_filter_cases (hkeep : ∀ c, isAllowed c = true → keep c = true) (s : List Char) :
    ∃ run more, runs s = run :: more ∧
      (joinRuns false (s.filter keep) = joinRuns false s ↔ ∀ r ∈ run :: more, Kept keep r) ∧
      (joinRuns true (s.filter keep) = joinRuns true s ↔ ∀ r ∈ more, Kept keep r) ∧
      (joinRuns false (s.filter keep) = '-' :: joinRuns true s ↔
        (∃ c ∈ run, keep c = true) ∧ ∀ r ∈ more, Kept keep r) := by
  induction s with
  | nil => exact ⟨[], [], runs_nil, by simp [Kept], by simp, by simp [joinRuns]⟩
  | cons c s ih =>
    obtain ⟨run, more, hruns, hfree, hrun, hstart⟩ := ih
    cases hc : isAllowed c with
    | true =>
      have hlength := (joinRuns_filter_length hkeep s).1
      refine ⟨[], run :: more, by rw [runs_allowed hc, hruns], ?_, ?_, ?_⟩
      · rw [List.filter_cons_of_pos (hkeep c hc), joinRuns_allowed hc, joinRuns_allowed hc,
          List.cons_inj_right, hfree, List.forall_mem_cons (a := [])]
        simp [Kept]
      · rw [List.filter_cons_of_pos (hkeep c hc), joinRuns_allowed hc, joinRuns_allowed hc,
          List.cons_inj_right, hfree]
      · -- the run has ended with nothing kept of it: one character too many on the right
        rw [List.filter_cons_of_pos (hkeep c hc), joinRuns_allowed hc, joinRuns_allowed hc]
        refine iff_of_false (fun h => ?_) (by simp)
        have := congrArg List.length h
        simp only [List.length_cons] at this
        omega
    | false =>
      refine ⟨c :: run, more, runs_other hc hruns, ?_⟩
      cases hk : keep c with
      | true =>
        rw [List.filter_cons_of_pos hk, joinRuns_start hc, joinRuns_start hc, joinRuns_more hc,
          joinRuns_more hc, List.cons_inj_right, hrun, List.forall_mem_cons]
        simp [Kept, hk]
      | false =>
        rw [List.filter_cons_of_neg (by simp [hk]), joinRuns_start hc, joinRuns_more hc, hrun,
          hstart, List.forall_mem_cons]
        simp [Kept, hk]

theorem joinRuns_filter_eq_iff (hkeep : ∀ c, isAllowed c = true → keep c = true) (s : List Char) :
    joinRuns false (s.filter keep) = joinRuns false s ↔ ∀ run ∈ runs s, Kept keep run := by
  obtain ⟨run, more, hruns, h, -⟩ := joinRuns_filter_cases hkeep s
  rw [h, hruns]

end

/-! ## Spans -/

/-- What stands in a span: between one character and the first of another after it. -/
def InSpan (first last : Char) (v s : List Char) : Prop :=
  v ≠ [] ∧ last ∉ v ∧ ∃ u w, s = u ++ first :: (v ++ last :: w)

/-- A text with a span. -/
def HasSpan (first last : Char) (s : List Char) : Prop :=
  ∃ v, InSpan first last v s

section
variable {first last : Char}

theorem HasSpan.append_left {s : List Char} (h : HasSpan first last s) (t : List Char) :
    HasSpan first last (t ++ s) := by
  obtain ⟨v, hv, hlast, u, w, rfl⟩ := h
  exact ⟨v, hv, hlast, t ++ u, w, (List.append_assoc _ _ _).symm⟩

theorem not_hasSpan_of_notMem {s : List Char} (h : first ∉ s) : ¬ HasSpan first last s := by
  rintro ⟨v, -, -, u, w, rfl⟩
  exact h (List.mem_append_right u List.mem_cons_self)

theorem dropSpans_append_none {u : List Char} (h : first ∉ u) (t : List Char) :
    dropSpans first last none (u ++ t) = u ++ dropSpans first last none t := by
  induction u with
  | nil => rfl
  | cons c u ih =>
    rw [List.mem_cons, not_or] at h
    rw [List.cons_append, dropSpans, if_neg (Ne.symm h.1), ih h.2, List.cons_append]

theorem dropSpans_append_some {u : List Char} (h : last ∉ u) (held t : List Char) :
    dropSpans first last (some held) (u ++ t) =
      dropSpans first last (some (u.reverse ++ held)) t := by
  induction u generalizing held with
  | nil => rfl
  | cons c u ih =>
    rw [List.mem_cons, not_or] at h
    rw [List.cons_append, dropSpans, if_neg (Ne.symm h.1), ih h.2, List.reverse_cons,
      List.append_assoc, List.singleton_append]

theorem dropSpans_span {v : List Char} (hv : v ≠ []) (hlast : last ∉ v) (w : List Char) :
    dropSpans first last none (first :: (v ++ last :: w)) = dropSpans first last none w := by
  have hne : ([] : List Char).isEmpty = true := rfl
  rw [dropSpans, if_pos rfl, dropSpans_append_some hlast, dropSpans, if_pos rfl, if_neg]
  simpa using hv

/-- What has been read of a span that is still open. -/
def opened (first : Char) : Option (List Char) → List Char
  | none => []
  | some held => first :: held.reverse

theorem opened_cons (c : Char) (held s : List Char) :
    opened first (some (c :: held)) ++ s = opened first (some held) ++ c :: s := by
  simp [opened]

/-- Only characters of the text are left, in their order. -/
theorem dropSpans_sublist (pending : Option (List Char)) (s : List Char) :
    (dropSpans first last pending s).Sublist (opened first pending ++ s) := by
  induction s generalizing pending with
  | nil => cases pending <;> simp [dropSpans, opened]
  | cons c s ih =>
    cases pending with
    | none =>
      rw [dropSpans]
      split
      · rename_i hc
        subst hc
        exact ih (some [])
      · exact (ih none).cons_cons c
    | some held =>
      rw [dropSpans]
      split
      · split
        · rename_i hc hempty
          rw [hc, List.isEmpty_iff.1 hempty]
          exact ((ih none).cons_cons last).cons_cons first
        · exact ((ih none).cons c).trans (List.sublist_append_right _ _)
      · rw [← opened_cons]
        exact ih (some (c :: held))

theorem dropSpans_of_not_hasSpan_from {s : List Char} :
    (¬ HasSpan first last s → dropSpans first last none s = s) ∧
      ∀ held, last ∉ held → ¬ HasSpan first last (first :: (held.reverse ++ s)) →
        dropSpans first last (some held) s = first :: (held.reverse ++ s) := by
  induction s with
  | nil => exact ⟨fun _ => rfl, fun held _ _ => by rw [dropSpans, List.append_nil]⟩
  | cons c s ih =>
    obtain ⟨ihnone, ihsome⟩ := ih
    constructor
    · intro h
      rw [dropSpans]
      split
      · rename_i hc
        subst hc
        exact ihsome [] List.not_mem_nil h
      · rw [ihnone fun hs => h (hs.append_left [c])]
    · intro held hheld h
      rw [dropSpans]
      split
      · rename_i hc
        subst hc
        split
        · rename_i hempty
          rw [List.isEmpty_iff.1 hempty] at h ⊢
          rw [ihnone fun hs => h (hs.append_left [first, c])]
          rfl
        · rename_i hne
          refine absurd ⟨held.reverse, ?_, by simpa using hheld, [], s, rfl⟩ h
          simpa using hne
      · rename_i hc
        have hmem : last ∉ c :: held := by
          rw [List.mem_cons, not_or]
          exact ⟨Ne.symm hc, hheld⟩
        have hassoc : (c :: held).reverse ++ s = held.reverse ++ c :: s := by simp
        rw [ihsome (c :: held) hmem (by rwa [hassoc]), hassoc]

/-- Text without spans is left as it is. -/
theorem dropSpans_of_not_hasSpan {s : List Char} (h : ¬ HasSpan first last s) :
    dropSpans first last none s = s :=
  dropSpans_of_not_hasSpan_from.1 h

/-! ## Spans and small forms -/

/-- A character that is its own small form and that of no other. -/
def IsSign (x : Char) : Prop :=
  Text.smallForm x = [x] ∧ ∀ c, x ∈ Text.smallForm c → x = c

theorem isSign_of_lt {x : Char} (hsmall : Text.smallForm x = [x])
    (hx : 0 < x.toNat ∧ x.toNat < 0x61) : IsSign x :=
  ⟨hsmall, fun _ h => Text.eq_of_mem_smallForm hx h⟩

/-- Spans between signs may be dropped before or after the small form is taken. -/
theorem dropSpans_lowerAll (hf : IsSign first) (hl : IsSign last) (pending : Option (List Char))
    (s : List Char) :
    dropSpans first last (pending.map fun held => (Text.lowerAll held.reverse).reverse)
      (Text.lowerAll s) = Text.lowerAll (dropSpans first last pending s) := by
  induction s generalizing pending with
  | nil =>
    cases pending with
    | none => rfl
    | some held =>
      rw [dropSpans, Text.lowerAll_cons, hf.1, Text.lowerAll_nil, Option.map_some, dropSpans,
        List.reverse_reverse, List.singleton_append]
  | cons c s ih =>
    rw [Text.lowerAll_cons]
    cases pending with
    | none =>
      by_cases hc : c = first
      · subst hc
        rw [hf.1, dropSpans, if_pos rfl, ← ih (some [])]
        exact if_pos rfl
      · have hmem : first ∉ Text.smallForm c := fun h => hc (hf.2 c h).symm
        have := ih none
        rw [Option.map_none] at this ⊢
        rw [dropSpans_append_none hmem, this, dropSpans, if_neg hc, Text.lowerAll_cons]
    | some held =>
      by_cases hc : c = last
      · subst hc
        have hempty : (Text.lowerAll held.reverse).reverse.isEmpty = held.isEmpty := by
          rw [Bool.eq_iff_iff, List.isEmpty_iff, List.isEmpty_iff, List.reverse_eq_nil_iff,
            Text.lowerAll_eq_nil_iff, List.reverse_eq_nil_iff]
        have := ih none
        rw [Option.map_none] at this
        rw [hl.1, Option.map_some, List.singleton_append, dropSpans, if_pos rfl, hempty, dropSpans,
          if_pos rfl]
        split
        · rw [Text.lowerAll_cons, Text.lowerAll_cons, hf.1, hl.1, ← this]
          rfl
        · exact this
      · have hmem : last ∉ Text.smallForm c := fun h => hc (hl.2 c h).symm
        rw [Option.map_some, dropSpans_append_some hmem, dropSpans, if_neg hc, ← ih (some (c :: held)),
          Option.map_some, List.reverse_cons, Text.lowerAll_append, List.reverse_append,
          Text.lowerAll_singleton]

end

/-! ## Tags and entities -/

/-- A text without its tags, and without the entities that are then left. -/
def withoutSpans (s : List Char) : List Char :=
  dropSpans '&' ';' none (dropSpans '<' '>' none s)

theorem withoutSpans_sublist (s : List Char) : (withoutSpans s).Sublist s :=
  (dropSpans_sublist none _).trans (dropSpans_sublist none s)

theorem withoutSpans_append {u : List Char} (htag : '<' ∉ u) (hentity : '&' ∉ u) (t : List Char) :
    withoutSpans (u ++ t) = u ++ withoutSpans t := by
  rw [withoutSpans, dropSpans_append_none htag, dropSpans_append_none hentity, withoutSpans]

theorem withoutSpans_eq_self {s : List Char} (htags : ¬ HasSpan '<' '>' s)
    (hentities : ¬ HasSpan '&' ';' s) : withoutSpans s = s := by
  rw [withoutSpans, dropSpans_of_not_hasSpan htags, dropSpans_of_not_hasSpan hentities]

/-- Tags and entities may be dropped before the small form is taken. -/
theorem plain_eq (s : List Char) : plain s = Text.trim (Text.lowerAll (withoutSpans s)) := by
  have hlt : IsSign '<' := isSign_of_lt (by decide) (by decide)
  have hgt : IsSign '>' := isSign_of_lt (by decide) (by decide)
  have hamp : IsSign '&' := isSign_of_lt (by decide) (by decide)
  have hsemi : IsSign ';' := isSign_of_lt (by decide) (by decide)
  have htags := dropSpans_lowerAll hlt hgt none s
  have hentities := dropSpans_lowerAll hamp hsemi none (dropSpans '<' '>' none s)
  rw [Option.map_none] at htags hentities
  rw [plain, htags, hentities, withoutSpans]

/-! ## Characters that identifiers keep -/

/-- A character that an identifier keeps as it is: a letter, a digit or an underscore. -/
def isWordChar (c : Char) : Bool :=
  isAllowed c && c != '-'

/-- How many characters of a text its identifier keeps. -/
def wordSize (s : List Char) : Nat :=
  (Text.lowerAll s).countP isWordChar

theorem wordSize_append (s t : List Char) : wordSize (s ++ t) = wordSize s + wordSize t := by
  rw [wordSize, Text.lowerAll_append, List.countP_append, wordSize, wordSize]

theorem wordSize_cons (c : Char) (s : List Char) :
    wordSize (c :: s) = (Text.smallForm c).countP isWordChar + wordSize s := by
  rw [wordSize, Text.lowerAll_cons, List.countP_append, wordSize]

theorem wordSize_le {s t : List Char} (h : s.Sublist t) : wordSize s ≤ wordSize t := by
  induction h with
  | slnil => exact Nat.le_refl _
  | cons c _ ih =>
    rw [wordSize_cons c]
    omega
  | cons_cons c _ ih =>
    rw [wordSize_cons c, wordSize_cons c]
    omega

theorem countP_joinRuns (inRun : Bool) (s : List Char) :
    (joinRuns inRun s).countP isWordChar = s.countP isWordChar := by
  induction s generalizing inRun with
  | nil => rfl
  | cons c s ih =>
    cases hc : isAllowed c with
    | true => rw [joinRuns_allowed hc, List.countP_cons, List.countP_cons, ih]
    | false =>
      have hword : ¬ isWordChar c = true := by simp [isWordChar, hc]
      have hhyphen : ¬ isWordChar '-' = true := by decide
      rw [List.countP_cons_of_neg hword]
      cases inRun with
      | true => rw [joinRuns_more hc, ih]
      | false => rw [joinRuns_start hc, List.countP_cons_of_neg hhyphen, ih]

/-- A span with something in it that an identifier keeps is missing afterwards. -/
theorem wordSize_dropSpans_lt {first last : Char} (hfl : first ≠ last) {v : List Char}
    (hne : v ≠ []) (hlast : last ∉ v) (hv : 0 < wordSize v) (w u : List Char)
    (pending : Option (List Char)) :
    wordSize (dropSpans first last pending (u ++ first :: (v ++ last :: w))) <
      wordSize (opened first pending ++ (u ++ first :: (v ++ last :: w))) := by
  have hafter : wordSize (dropSpans first last none w) ≤ wordSize w :=
    wordSize_le (dropSpans_sublist none w)
  induction u generalizing pending with
  | nil =>
    have hdrop : dropSpans first last pending (first :: (v ++ last :: w)) =
        dropSpans first last none w := by
      cases pending with
      | none => exact dropSpans_span hne hlast w
      | some held =>
        rw [dropSpans, if_neg hfl, dropSpans_append_some hlast, dropSpans, if_pos rfl, if_neg]
        simp
    rw [List.nil_append, hdrop]
    simp only [wordSize_append, wordSize_cons]
    omega
  | cons c u ih =>
    have hnone := ih none
    simp only [wordSize_append, wordSize_cons, opened, List.nil_append] at hnone
    cases pending with
    | none =>
      rw [List.cons_append, dropSpans]
      split
      · rename_i hc
        rw [hc]
        exact ih (some [])
      · simp only [wordSize_append, wordSize_cons, opened, List.nil_append]
        omega
    | some held =>
      rw [List.cons_append, dropSpans]
      split
      · split
        · simp only [wordSize_append, wordSize_cons, opened, List.cons_append]
          rename_i hc _
          rw [hc]
          omega
        · simp only [wordSize_append, wordSize_cons]
          omega
      · rw [← opened_cons]
        exact ih (some (c :: held))

/-- An identifier loses what it would keep of a tag, or of an entity where there is no tag. -/
theorem wordSize_withoutSpans_lt {v s : List Char} (hv : 0 < wordSize v)
    (h : InSpan '<' '>' v s ∨ ¬ HasSpan '<' '>' s ∧ InSpan '&' ';' v s) :
    wordSize (withoutSpans s) < wordSize s := by
  have hle : wordSize (withoutSpans s) ≤ wordSize (dropSpans '<' '>' none s) :=
    wordSize_le (dropSpans_sublist none _)
  rcases h with ⟨hne, hlast, u, w, rfl⟩ | ⟨htags, hne, hlast, u, w, rfl⟩
  · exact Nat.lt_of_le_of_lt hle (wordSize_dropSpans_lt (by decide) hne hlast hv w u none)
  · rw [withoutSpans, dropSpans_of_not_hasSpan htags]
    exact wordSize_dropSpans_lt (by decide) hne hlast hv w u none

/-! ## Texts that begin with a capital -/

/-- The identifier of a text that begins with a capital and does not end in a blank, once the tags
and entities are dropped. -/
theorem normalizeChars_eq {fallback s t : List Char} {c : Char}
    (hs : withoutSpans s = c :: t) (hc : c.isUpper = true)
    (hlast : ∀ d ∈ (c :: t).getLast?, Text.isBlank d = false) :
    normalizeChars fallback s = joinRuns false (Text.lowerAll (c :: t)) := by
  obtain ⟨d, hd, hletter⟩ := Text.smallForm_of_isUpper hc
  have hsmall : Text.lowerAll (c :: t) = d :: Text.lowerAll t := by
    rw [Text.lowerAll_cons, hd, List.singleton_append]
  have hplain : plain s = d :: Text.lowerAll t := by
    rw [plain_eq, hs, ← hsmall]
    refine Text.trim_eq_self (fun x hx => ?_) (Text.isBlank_getLast?_lowerAll hlast)
    rw [hsmall, List.head?_cons, Option.mem_some_iff] at hx
    refine Text.isBlank_of_mem_smallForm (Text.isBlank_of_isUpper hc) ?_
    rw [hd, hx]
    exact List.mem_singleton_self x
  rw [normalizeChars, withLetter, hplain, List.any_cons, isLetter, hletter, Bool.true_or, if_pos rfl,
    List.dropWhile_cons, isLetter, hletter, hsmall]
  rfl

/-! ## The form of identifiers -/

/-- An ASCII letter, followed by characters that an identifier may hold. -/
def isWellFormed (s : String) : Bool :=
  match s.toList with
  | [] => false
  | c :: rest => isLetter c && rest.all isAllowed

theorem isWellFormed_iff {s : String} :
    isWellFormed s = true ↔
      ∃ c rest, s.toList = c :: rest ∧ isLetter c = true ∧ ∀ d ∈ rest, isAllowed d = true := by
  rw [isWellFormed]
  cases s.toList with
  | nil => simp
  | cons c rest =>
    simp only [Bool.and_eq_true, List.all_eq_true]
    constructor
    · exact fun h => ⟨c, rest, rfl, h⟩
    · rintro ⟨_, _, ⟨⟩, h⟩
      exact h

theorem isAllowed_of_isLetter {c : Char} (h : isLetter c = true) : isAllowed c = true := by
  rw [isLetter] at h
  rw [isAllowed, Char.isAlphanum, h]
  rfl

theorem isWellFormed_append {s t : String} (hs : isWellFormed s = true)
    (ht : ∀ d ∈ t.toList, isAllowed d = true) : isWellFormed (s ++ t) = true := by
  obtain ⟨c, rest, heq, hc, hrest⟩ := isWellFormed_iff.1 hs
  refine isWellFormed_iff.2 ⟨c, rest ++ t.toList, ?_, hc, List.forall_mem_append.2 ⟨hrest, ht⟩⟩
  rw [String.toList_append, heq, List.cons_append]

theorem exists_dropWhile_eq_cons {s : List Char} (h : ∃ c ∈ s, isLetter c = true) :
    ∃ c rest, (s.dropWhile fun c => !isLetter c) = c :: rest ∧ isLetter c = true := by
  induction s with
  | nil => simp at h
  | cons d s ih =>
    cases hd : isLetter d with
    | true => exact ⟨d, s, by rw [List.dropWhile_cons, hd]; rfl, hd⟩
    | false =>
      obtain ⟨c, hmem, hc⟩ := h
      have hne : c ≠ d := by
        rintro rfl
        rw [hd] at hc
        cases hc
      obtain ⟨c, rest, hdrop, hc⟩ := ih ⟨c, List.mem_of_ne_of_mem hne hmem, hc⟩
      exact ⟨c, rest, by rw [List.dropWhile_cons, hd, ← hdrop]; rfl, hc⟩

theorem isWellFormed_joinRuns {s : List Char} (h : ∃ c ∈ s, isLetter c = true) :
    isWellFormed (String.ofList (joinRuns false (s.dropWhile fun c => !isLetter c))) = true := by
  obtain ⟨c, rest, hdrop, hc⟩ := exists_dropWhile_eq_cons h
  refine isWellFormed_iff.2 ⟨c, joinRuns false rest, ?_, hc, fun d => isAllowed_of_mem_joinRuns⟩
  rw [String.toList_ofList, hdrop, joinRuns_allowed (isAllowed_of_isLetter hc)]

theorem exists_letter_withLetter {fallback : List Char} (h : ∃ c ∈ fallback, isLetter c = true)
    (s : List Char) : ∃ c ∈ withLetter fallback s, isLetter c = true := by
  rw [withLetter]
  split
  · rename_i hany
    exact List.any_eq_true.1 hany
  · exact h.imp fun c hc => ⟨List.mem_append_left _ hc.1, hc.2⟩

/-- With a letter to fall back on, every text has an identifier. -/
theorem isWellFormed_normalize {fallback : String} (h : ∃ c ∈ fallback.toList, isLetter c = true)
    (s : String) : isWellFormed (normalize fallback s) = true :=
  isWellFormed_joinRuns (exists_letter_withLetter h _)

end RouteDocs.Identifier
