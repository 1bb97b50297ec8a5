import RouteDocs.Html.Replacement

/-!
# Replacement templates, read from the head on

A template is read piece by piece. A character that is no backslash is a piece and
stands for itself; a backslash begins a piece that stands for one character or for
the match, or for the backslash and the character after it.

Results:
* `parts_cons_ok_iff`: a template is read by its first piece and the rest.
* `part_ok`: what a piece is and what it stands for.
* `isTemplate_iff`: which texts are templates.
* `parts_of_literal`: a text whose backslashes stand for themselves is read as it is written.
* `spoken_of_parts`: what a text in a template comes to, up to the character after it.
* `spoken_between`, `parts_between`: what a text between others comes to.
* `Spoken.length_le`, `Spoken.literal_of_length`: it is no longer than the text, and as long only
  if the text is literal.
-/
namespace RouteDocs.Html.Replacement

/-! ## Reading from the head on -/

theorem fill_chars (found s : List Char) : fill found (s.map .char) = s := by
  rw [fill, List.flatMap_map]
  exact List.flatMap_singleton' s

/-- The first match in a text that begins with one is there. -/
theorem replaceFirst_of_prefix {found s : List Char} (hne : found ≠ []) (h : found <+: s)
    (ps : List ReplacementPart) :
    replaceFirst found ps s = fill found ps ++ s.drop found.length := by
  cases s with
  | nil => exact absurd (List.prefix_nil.1 h) hne
  | cons c rest => rw [replaceFirst, if_pos (List.isPrefixOf_iff_prefix.2 h)]

theorem partsFrom_eq_drop (skip : Nat) (s : List Char) :
    partsFrom skip s = parts (s.drop skip) := by
  induction skip generalizing s with
  | zero => rfl
  | succ skip ih =>
    cases s with
    | nil => rfl
    | cons c rest => exact ih rest

section
variable {c d x : Char} {s rest : List Char} {ps qs : List ReplacementPart} {n : Nat}

/-- A template is read by its first piece and the rest. -/
theorem parts_cons_ok_iff :
    parts (c :: rest) = .ok qs ↔
      ∃ ps n rs, part c rest = .ok (ps, n) ∧ parts (rest.drop n) = .ok rs ∧ qs = ps ++ rs := by
  rw [parts, partsFrom]
  cases hpart : part c rest with
  | error f =>
    constructor
    · intro h
      cases h
    · rintro ⟨ps, n, rs, ⟨⟩, -⟩
  | ok p =>
    obtain ⟨ps, n⟩ := p
    dsimp only
    rw [partsFrom_eq_drop]
    cases hrest : parts (rest.drop n) with
    | error f =>
      constructor
      · intro h
        cases h
      · rintro ⟨_, _, rs, ⟨⟩, h, -⟩
        rw [hrest] at h
        cases h
    | ok rs =>
      constructor
      · intro h
        cases h
        exact ⟨ps, n, rs, rfl, hrest, rfl⟩
      · rintro ⟨_, _, rs', ⟨⟩, h, rfl⟩
        rw [hrest] at h
        cases h
        rfl

theorem part_char (h : c ≠ '\\') (rest : List Char) : part c rest = .ok ([.char c], 0) :=
  if_pos h

theorem parts_char (h : c ≠ '\\') :
    parts (c :: rest) = .ok qs ↔ ∃ rs, parts rest = .ok rs ∧ qs = .char c :: rs := by
  rw [parts_cons_ok_iff]
  constructor
  · rintro ⟨ps, n, rs, hpart, hrest, rfl⟩
    rw [part_char h] at hpart
    cases hpart
    exact ⟨rs, hrest, rfl⟩
  · rintro ⟨rs, hrest, rfl⟩
    exact ⟨[.char c], 0, rs, part_char h rest, hrest, rfl⟩

/-- Characters that are no backslashes stand for themselves. -/
theorem parts_plain_append {u : List Char} (h : '\\' ∉ u) :
    parts (u ++ s) = .ok qs ↔ ∃ rs, parts s = .ok rs ∧ qs = u.map .char ++ rs := by
  induction u generalizing qs with
  | nil => simp
  | cons c u ih =>
    rw [List.mem_cons, not_or] at h
    rw [List.cons_append, parts_char (Ne.symm h.1)]
    constructor
    · rintro ⟨rs, hrs, rfl⟩
      obtain ⟨rs', hrs', rfl⟩ := (ih h.2).1 hrs
      exact ⟨rs', hrs', rfl⟩
    · rintro ⟨rs, hrs, rfl⟩
      exact ⟨u.map .char ++ rs, (ih h.2).2 ⟨rs, hrs, rfl⟩, rfl⟩

theorem parts_of_plain (h : '\\' ∉ s) : parts s = .ok (s.map .char) := by
  have hparts := (parts_plain_append (s := []) h).2 ⟨[], rfl, rfl⟩
  rwa [List.append_nil, List.append_nil] at hparts

end

/-! ## Pieces that begin with a backslash -/

def isOctal (c : Char) : Bool :=
  decide ('0' ≤ c ∧ c ≤ '7')

/-- The characters of a piece after its backslash, and what it stands for. -/
inductive Escape : List Char → List ReplacementPart → Prop where
  | control {d x : Char} (h : control? d = some x) : Escape [d] [.char x]
  | zero {ds : List Char} (h : ∀ d ∈ ds, isOctal d = true) (x : Char) :
      Escape ('0' :: ds) [.char x]
  | triple {a b c x : Char} (ha : a ≠ '0') (h : octalTriple? a [b, c] = some x) :
      Escape [a, b, c] [.char x]
  | group {name : List Char} {p : ReplacementPart} (hname : '>' ∉ name) (h : group name = .ok p) :
      Escape ('g' :: '<' :: (name ++ ['>'])) [p]
  | kept {d : Char} (h : d.isAlphanum = false) (hd : d ≠ '\\') : Escape [d] [.char '\\', .char d]

section
variable {c d x : Char} {s rest : List Char} {ps qs : List ReplacementPart} {n : Nat}

theorem isOctal_of_octal? (h : octal? c = some n) : isOctal c = true := by
  rw [octal?] at h
  split at h
  · rename_i hc
    exact decide_eq_true hc
  · cases h

/-- The further digits of a number that begins with a zero. -/
theorem octalTail_spec (s : List Char) :
    ∃ ds rest, s = ds ++ rest ∧ ds.length = (octalTail s).2 ∧ ∀ d ∈ ds, isOctal d = true := by
  rcases s with _ | ⟨a, _ | ⟨b, t⟩⟩
  · exact ⟨[], [], rfl, rfl, nofun⟩
  · rw [octalTail]
    cases ha : octal? a with
    | none => exact ⟨[], [a], rfl, rfl, nofun⟩
    | some m => exact ⟨[a], [], rfl, rfl, by simp [isOctal_of_octal? ha]⟩
  · rw [octalTail]
    cases ha : octal? a with
    | none => exact ⟨[], a :: b :: t, rfl, rfl, nofun⟩
    | some m =>
      cases hb : octal? b with
      | none => exact ⟨[a], b :: t, rfl, rfl, by simp [isOctal_of_octal? ha]⟩
      | some n =>
        exact ⟨[a, b], t, rfl, rfl, by simp [isOctal_of_octal? ha, isOctal_of_octal? hb]⟩

theorem part_zero (rest : List Char) :
    part '\\' ('0' :: rest) =
      .ok ([.char (Char.ofNat (octalTail rest).1)], (octalTail rest).2 + 1) := rfl

theorem part_opened (more : List Char) :
    part '\\' ('g' :: '<' :: more) =
      (if (more.takeWhile (· ≠ '>')).isEmpty || (more.takeWhile (· ≠ '>')).length = more.length then
        .error .replacementTemplate
      else (group (more.takeWhile (· ≠ '>'))).map fun p =>
        ([p], (more.takeWhile (· ≠ '>')).length + 3)) := rfl

theorem octalTriple?_ok (h : octalTriple? d rest = some x) :
    ∃ b c s, rest = b :: c :: s ∧ octalTriple? d [b, c] = some x := by
  rcases rest with _ | ⟨b, _ | ⟨c, s⟩⟩
  · cases h
  · cases h
  · exact ⟨b, c, s, rfl, h⟩

/-- A word up to the bracket that closes it. -/
theorem exists_closed (h : (s.takeWhile (· ≠ '>')).length ≠ s.length) :
    ∃ name t, s = name ++ '>' :: t ∧ '>' ∉ name ∧ s.takeWhile (· ≠ '>') = name := by
  induction s with
  | nil => exact absurd rfl h
  | cons c s ih =>
    by_cases hc : c = '>'
    · exact ⟨[], s, by rw [hc]; rfl, List.not_mem_nil, by simp [hc]⟩
    · have htake : (c :: s).takeWhile (· ≠ '>') = c :: s.takeWhile (· ≠ '>') := by simp [hc]
      rw [htake, List.length_cons, List.length_cons] at h
      obtain ⟨name, t, hs, hname, heq⟩ := ih fun hlength => h (congrArg (· + 1) hlength)
      refine ⟨c :: name, t, by rw [hs]; rfl, ?_, by rw [htake, heq]⟩
      rw [List.mem_cons, not_or]
      exact ⟨Ne.symm hc, hname⟩

/-- A group goes up to the bracket that closes it. -/
theorem escape_of_group {more : List Char} (h : part '\\' ('g' :: '<' :: more) = .ok (ps, n)) :
    ∃ taken s, 'g' :: '<' :: more = taken ++ s ∧ taken.length = n ∧ Escape taken ps := by
  rw [part_opened] at h
  split at h
  · cases h
  · rename_i hclosed
    simp only [Bool.or_eq_true, not_or, decide_eq_true_eq] at hclosed
    obtain ⟨name, t, rfl, hname, htake⟩ := exists_closed hclosed.2
    rw [htake] at h
    cases hgroup : group name with
    | error f =>
      rw [hgroup] at h
      cases h
    | ok p =>
      rw [hgroup] at h
      cases h
      exact ⟨_, t, by simp, by simp, .group hname hgroup⟩

theorem escape_of_zero {more : List Char} (h : part '\\' ('0' :: more) = .ok (ps, n)) :
    ∃ taken s, '0' :: more = taken ++ s ∧ taken.length = n ∧ Escape taken ps := by
  obtain ⟨ds, s, hs, hlength, hds⟩ := octalTail_spec more
  rw [part_zero] at h
  cases h
  exact ⟨'0' :: ds, s, by rw [hs]; rfl, congrArg (· + 1) hlength, .zero hds _⟩

/-- What a piece after a backslash is and what it stands for. -/
theorem escape_of_part (h : part '\\' rest = .ok (ps, n)) :
    ∃ taken s, rest = taken ++ s ∧ taken.length = n ∧ Escape taken ps := by
  have hpart := h
  rw [part.eq_def, if_neg (by simp)] at h
  split at h
  · cases h
  · exact escape_of_group hpart
  · exact escape_of_zero hpart
  · rename_i d more _ hzero
    split at h
    · split at h
      · rename_i x hx
        cases h
        obtain ⟨b, c, s, rfl, hx⟩ := octalTriple?_ok hx
        exact ⟨[d, b, c], s, rfl, rfl, .triple hzero hx⟩
      · cases h
    · rename_i hdigit
      split at h
      · rename_i x hx
        cases h
        exact ⟨[d], more, rfl, rfl, .control hx⟩
      · rename_i hcontrol
        split at h
        · cases h
        · rename_i halpha
          cases h
          have hd : d ≠ '\\' := by
            rintro rfl
            cases hcontrol
          refine ⟨[d], more, rfl, rfl, .kept ?_ hd⟩
          rw [Char.isAlphanum, Bool.eq_false_iff.2 halpha, Bool.eq_false_iff.2 hdigit]
          rfl

/-- What a piece is and what it stands for: a character that is no backslash, or an escape. -/
theorem part_ok (h : part c rest = .ok (ps, n)) :
    c ≠ '\\' ∧ ps = [.char c] ∧ n = 0 ∨
      c = '\\' ∧ ∃ taken s, rest = taken ++ s ∧ taken.length = n ∧ Escape taken ps := by
  by_cases hc : c = '\\'
  · subst hc
    exact .inr ⟨rfl, escape_of_part h⟩
  · rw [part_char hc] at h
    cases h
    exact .inl ⟨hc, rfl, rfl⟩

theorem parts_escape (h : part '\\' rest = .ok (ps, n)) :
    parts ('\\' :: rest) = .ok qs ↔ ∃ rs, parts (rest.drop n) = .ok rs ∧ qs = ps ++ rs := by
  rw [parts_cons_ok_iff, h]
  constructor
  · rintro ⟨_, _, rs, ⟨⟩, hrest, rfl⟩
    exact ⟨rs, hrest, rfl⟩
  · rintro ⟨rs, hrest, rfl⟩
    exact ⟨ps, n, rs, rfl, hrest, rfl⟩

/-- Induction along the pieces of a template. -/
theorem parts_induction {motive : List Char → List ReplacementPart → Prop} (nil : motive [] [])
    (char : ∀ c s ps, c ≠ '\\' → parts s = .ok ps → motive s ps → motive (c :: s) (.char c :: ps))
    (escape : ∀ taken ps s qs, Escape taken ps → parts s = .ok qs → motive s qs →
      motive ('\\' :: (taken ++ s)) (ps ++ qs)) :
    ∀ {s : List Char} {qs : List ReplacementPart}, parts s = .ok qs → motive s qs
  | [], _, h => by
    cases h
    exact nil
  | c :: rest, qs, h => by
    obtain ⟨ps, n, rs, hpart, hrest, rfl⟩ := parts_cons_ok_iff.1 h
    have hshort : (rest.drop n).length < rest.length + 1 := by
      rw [List.length_drop]
      omega
    have htail := parts_induction nil char escape hrest
    rcases part_ok hpart with ⟨hc, rfl, rfl⟩ | ⟨rfl, taken, s, rfl, rfl, hescape⟩
    · exact char c rest rs hc hrest htail
    · rw [List.drop_left] at htail hrest
      exact escape taken ps s rs hescape hrest htail
termination_by s => s.length

/-! ## Templates -/

/-- The texts that are templates: a backslash is followed by the letter of a control or another
backslash, by a zero, by three octal digits up to the last of a byte, by a group that is the whole
match, or by a character that is no ASCII letter or digit. -/
inductive IsTemplate : List Char → Prop where
  | nil : IsTemplate []
  | char {c : Char} {s : List Char} (h : c ≠ '\\') : IsTemplate s → IsTemplate (c :: s)
  | control {d : Char} {s : List Char} (h : d ∈ "abfnrtv\\".toList) :
      IsTemplate s → IsTemplate ('\\' :: d :: s)
  | zero {s : List Char} : IsTemplate s → IsTemplate ('\\' :: '0' :: s)
  | triple {a b c : Char} {s : List Char} (ha : '1' ≤ a ∧ a ≤ '3') (hb : isOctal b = true)
      (hc : isOctal c = true) : IsTemplate s → IsTemplate ('\\' :: a :: b :: c :: s)
  | group {name s : List Char} (hname : '>' ∉ name) (hne : Text.isName name = false)
      (hzero : Numeral.integer? 10 name = some 0) :
      IsTemplate s → IsTemplate ('\\' :: 'g' :: '<' :: (name ++ '>' :: s))
  | kept {d : Char} {s : List Char} (h : d.isAlphanum = false) :
      IsTemplate s → IsTemplate ('\\' :: d :: s)

theorem IsTemplate.append_of_plain {u : List Char} (hu : ∀ c ∈ u, c ≠ '\\') (h : IsTemplate s) :
    IsTemplate (u ++ s) := by
  induction u with
  | nil => exact h
  | cons c u ih =>
    obtain ⟨hc, hu⟩ := List.forall_mem_cons.1 hu
    exact .char hc (ih hu)

theorem ne_backslash_of_isOctal (h : isOctal c = true) : c ≠ '\\' := by
  rintro rfl
  cases h

theorem mem_controls_iff : d ∈ "abfnrtv\\".toList ↔ (control? d).isSome = true := by
  constructor
  · revert d
    decide
  · intro h
    unfold control? at h
    split at h
    case h_9 => cases h
    all_goals decide

theorem isOctal_iff : isOctal c = true ↔ c ∈ "01234567".toList := by
  have hall : ∀ n < 56, 48 ≤ n → Char.ofNat n ∈ "01234567".toList := by decide
  constructor
  · intro h
    have hrange : '0' ≤ c ∧ c ≤ '7' := of_decide_eq_true h
    have hc := hall c.toNat (Nat.lt_succ_of_le (Char.le_def.1 hrange.2)) (Char.le_def.1 hrange.1)
    rwa [Char.ofNat_toNat] at hc
  · revert c
    decide

theorem isOctal_of_le (h : '1' ≤ c ∧ c ≤ '3') : isOctal c = true :=
  decide_eq_true ⟨Char.le_trans (by decide) h.1, Char.le_trans h.2 (by decide)⟩

theorem octalTriple?_isSome_iff {a b c : Char} (ha : a ≠ '0') :
    (octalTriple? a [b, c]).isSome = true ↔
      ('1' ≤ a ∧ a ≤ '3') ∧ isOctal b = true ∧ isOctal c = true := by
  have hall : ∀ a ∈ "1234567".toList, ∀ b ∈ "01234567".toList, ∀ c ∈ "01234567".toList,
      (octalTriple? a [b, c]).isSome = decide ('1' ≤ a ∧ a ≤ '3') := by decide +kernel
  have hfirst : isOctal a = true → a ∈ "1234567".toList := fun h =>
    (List.mem_cons.1 (isOctal_iff.1 h)).resolve_left ha
  constructor
  · intro h
    have hdigits : isOctal a = true ∧ isOctal b = true ∧ isOctal c = true := by
      unfold octalTriple? at h
      cases hoa : octal? a with
      | none => simp [hoa] at h
      | some m =>
        cases hob : octal? b with
        | none => simp [hoa, hob] at h
        | some n =>
          cases hoc : octal? c with
          | none => simp [hoa, hob, hoc] at h
          | some k =>
            exact ⟨isOctal_of_octal? hoa, isOctal_of_octal? hob, isOctal_of_octal? hoc⟩
    obtain ⟨hoa, hob, hoc⟩ := hdigits
    rw [hall a (hfirst hoa) b (isOctal_iff.1 hob) c (isOctal_iff.1 hoc)] at h
    exact ⟨of_decide_eq_true h, hob, hoc⟩
  · rintro ⟨ha', hob, hoc⟩
    have hoa : isOctal a = true := isOctal_of_le ha'
    rw [hall a (hfirst hoa) b (isOctal_iff.1 hob) c (isOctal_iff.1 hoc)]
    exact decide_eq_true ha'

theorem group_ok_iff {name : List Char} {p : ReplacementPart} :
    Replacement.group name = .ok p ↔
      Text.isName name = false ∧ Numeral.integer? 10 name = some 0 ∧ p = .whole := by
  rw [Replacement.group]
  cases hname : Text.isName name with
  | true => simp
  | false =>
    rw [if_neg Bool.false_ne_true]
    split
    · rename_i hzero
      simp [hzero, eq_comm]
    · rename_i hzero
      constructor
      · intro h
        cases h
      · rintro ⟨-, h, -⟩
        exact absurd h hzero

/-- What is left of a template behind an escape makes the whole one. -/
theorem Escape.isTemplate {taken : List Char} (h : Escape taken ps) (hs : IsTemplate s) :
    IsTemplate ('\\' :: (taken ++ s)) := by
  cases h with
  | control h => exact .control (mem_controls_iff.2 (h ▸ rfl)) hs
  | zero h x => exact .zero (hs.append_of_plain fun d hd => ne_backslash_of_isOctal (h d hd))
  | triple ha h =>
    obtain ⟨ha, hb, hc⟩ := (octalTriple?_isSome_iff ha).1 (Option.isSome_of_eq_some h)
    exact .triple ha hb hc hs
  | group hname h =>
    obtain ⟨hne, hzero, -⟩ := group_ok_iff.1 h
    have htemplate := IsTemplate.group hname hne hzero hs
    simpa using htemplate
  | kept h hd => exact .kept h hs

theorem isTemplate_of_parts (h : parts s = .ok qs) : IsTemplate s := by
  refine parts_induction (motive := fun s _ => IsTemplate s) .nil ?char ?escape h
  case char => exact fun c s ps hc _ hs => .char hc hs
  case escape => exact fun taken ps s qs hescape _ hs => hescape.isTemplate hs

theorem part_control (h : control? d = some x) (rest : List Char) :
    part '\\' (d :: rest) = .ok ([.char x], 1) := by
  unfold control? at h
  split at h
  case h_9 => cases h
  all_goals
    cases h
    rfl

theorem part_kept (h : d.isAlphanum = false) (hd : d ≠ '\\') (rest : List Char) :
    part '\\' (d :: rest) = .ok ([.char '\\', .char d], 1) := by
  rw [Char.isAlphanum, Bool.or_eq_false_iff] at h
  have hcontrol : control? d = none := by
    cases hc : control? d with
    | none => rfl
    | some x =>
      have hletters : ∀ d ∈ "abfnrtv\\".toList, d.isAlpha = true ∨ d = '\\' := by decide
      rcases hletters d (mem_controls_iff.2 (hc ▸ rfl)) with hletter | hback
      · rw [h.1] at hletter
        cases hletter
      · exact absurd hback hd
  rw [part.eq_def, if_neg (by simp)]
  split
  · rename_i heq
    cases heq
  · rename_i heq
    cases heq
    cases h.1
  · rename_i heq
    cases heq
    cases h.2
  · rename_i heq
    cases heq
    rw [h.1, h.2, hcontrol]
    rfl

theorem part_triple {a b c : Char} (ha : '1' ≤ a ∧ a ≤ '3') (h : octalTriple? a [b, c] = some x)
    (rest : List Char) : part '\\' (a :: b :: c :: rest) = .ok ([.char x], 3) := by
  have hdigit : a.isDigit = true := by
    rw [Char.isDigit, Bool.and_eq_true, decide_eq_true_eq, decide_eq_true_eq]
    exact ⟨Char.le_trans (by decide) ha.1, Char.le_trans ha.2 (by decide)⟩
  have htriple : octalTriple? a (b :: c :: rest) = some x := h
  rw [part.eq_def, if_neg (by simp)]
  split
  · rename_i heq
    cases heq
  · rename_i heq
    cases heq
    cases hdigit
  · rename_i heq
    cases heq
    exact absurd ha.1 (by decide)
  · rename_i heq
    cases heq
    rw [if_pos hdigit, htriple]

theorem part_group {name : List Char} (hname : '>' ∉ name)
    (h : Replacement.group name = .ok .whole) (rest : List Char) :
    part '\\' ('g' :: '<' :: (name ++ '>' :: rest)) = .ok ([.whole], name.length + 3) := by
  have hne : name ≠ [] := by
    rintro rfl
    cases h
  have htake : (name ++ '>' :: rest).takeWhile (· ≠ '>') = name := by
    rw [List.takeWhile_append_of_pos fun c hc => by
      simpa using fun heq : c = '>' => hname (heq ▸ hc)]
    simp
  have hlength : (name.isEmpty || decide (name.length = (name ++ '>' :: rest).length)) = false := by
    simp [hne]
  rw [part_opened, htake, hlength, h]
  rfl

theorem parts_of_isTemplate (h : IsTemplate s) : ∃ qs, parts s = .ok qs := by
  induction h with
  | nil => exact ⟨[], rfl⟩
  | char hc _ ih =>
    obtain ⟨qs, hqs⟩ := ih
    exact ⟨_, (parts_char hc).2 ⟨qs, hqs, rfl⟩⟩
  | control hd _ ih =>
    obtain ⟨qs, hqs⟩ := ih
    obtain ⟨x, hx⟩ := Option.isSome_iff_exists.1 (mem_controls_iff.1 hd)
    exact ⟨_, (parts_escape (part_control hx _)).2 ⟨qs, hqs, rfl⟩⟩
  | @zero s _ ih =>
    obtain ⟨qs, hqs⟩ := ih
    obtain ⟨ds, rest, rfl, hlength, hds⟩ := octalTail_spec s
    have hplain : '\\' ∉ ds := fun hmem => ne_backslash_of_isOctal (hds _ hmem) rfl
    obtain ⟨rs, hrs, -⟩ := (parts_plain_append hplain).1 hqs
    refine ⟨_, (parts_escape (part_zero _)).2 ⟨rs, ?_, rfl⟩⟩
    rw [← hlength, List.drop_succ_cons, List.drop_left]
    exact hrs
  | @triple a b c s ha hb hc _ ih =>
    obtain ⟨qs, hqs⟩ := ih
    have hzero : a ≠ '0' := by
      rintro rfl
      exact absurd ha.1 (by decide)
    obtain ⟨x, hx⟩ := Option.isSome_iff_exists.1 ((octalTriple?_isSome_iff hzero).2 ⟨ha, hb, hc⟩)
    exact ⟨_, (parts_escape (part_triple ha hx _)).2 ⟨qs, hqs, rfl⟩⟩
  | group hname hne hzero _ ih =>
    obtain ⟨qs, hqs⟩ := ih
    have hgroup := group_ok_iff.2 ⟨hne, hzero, rfl⟩
    refine ⟨_, (parts_escape (part_group hname hgroup _)).2 ⟨qs, ?_, rfl⟩⟩
    simpa using hqs
  | @kept d s hd _ ih =>
    obtain ⟨qs, hqs⟩ := ih
    by_cases hback : d = '\\'
    · subst hback
      exact ⟨_, (parts_escape (part_control rfl _)).2 ⟨qs, hqs, rfl⟩⟩
    · exact ⟨_, (parts_escape (part_kept hd hback _)).2 ⟨qs, hqs, rfl⟩⟩

theorem isTemplate_iff : IsTemplate s ↔ ∃ qs, parts s = .ok qs :=
  ⟨parts_of_isTemplate, fun ⟨_, h⟩ => isTemplate_of_parts h⟩

/-! ## Literal texts -/

/-- Every backslash of a text stands for itself: what follows it in the text is no ASCII letter or
digit and no backslash. -/
def Literal : List Char → Prop
  | [] => True
  | c :: s => (c = '\\' → ∀ d ∈ s.head?, d.isAlphanum = false ∧ d ≠ '\\') ∧ Literal s

theorem literal_plain_append {u w : List Char} (hu : '\\' ∉ u) (hw : Literal w) :
    Literal (u ++ w) := by
  induction u with
  | nil => exact hw
  | cons c u ih =>
    rw [List.mem_cons, not_or] at hu
    exact ⟨fun hc => absurd hc.symm hu.1, ih hu.2⟩

theorem literal_of_plain (h : '\\' ∉ s) : Literal s := by
  have hliteral := literal_plain_append h (w := []) trivial
  rwa [List.append_nil] at hliteral

section
variable {stop : Char} {post : List Char} (hstop : stop.isAlphanum = false) (hback : stop ≠ '\\')
include hstop hback

/-- A literal text is read as it is written, up to the character after it. -/
theorem parts_of_literal : ∀ {w : List Char}, Literal w → ∀ {qs : List ReplacementPart},
    parts (w ++ stop :: post) = .ok qs ↔
      ∃ rs, parts post = .ok rs ∧ qs = w.map .char ++ .char stop :: rs
  | [], _, qs => parts_char hback
  | [c], _, qs => by
    by_cases hc : c = '\\'
    · rw [hc]
      exact parts_escape (part_kept hstop hback post)
    · exact parts_plain_append (u := [c, stop]) (by simp [Ne.symm hc, Ne.symm hback])
  | c :: d :: w, hw, qs => by
    by_cases hc : c = '\\'
    · obtain ⟨hd, hdback⟩ := hw.1 hc d rfl
      rw [hc, List.cons_append, List.cons_append, parts_escape (part_kept hd hdback _)]
      constructor
      · rintro ⟨rs, hrs, rfl⟩
        obtain ⟨rs', hrs', rfl⟩ := (parts_of_literal hw.2.2).1 hrs
        exact ⟨rs', hrs', rfl⟩
      · rintro ⟨rs, hrs, rfl⟩
        exact ⟨_, (parts_of_literal hw.2.2).2 ⟨rs, hrs, rfl⟩, rfl⟩
    · rw [List.cons_append, parts_char hc]
      constructor
      · rintro ⟨rs, hrs, rfl⟩
        obtain ⟨rs', hrs', rfl⟩ := (parts_of_literal hw.2).1 hrs
        exact ⟨rs', hrs', rfl⟩
      · rintro ⟨rs, hrs, rfl⟩
        exact ⟨_, (parts_of_literal hw.2).2 ⟨rs, hrs, rfl⟩, rfl⟩

end

/-- What a text in a template comes to where it stands for no match: an escape comes to one
character, everything else to itself. -/
inductive Spoken : List Char → List Char → Prop where
  | nil : Spoken [] []
  | char {c : Char} {w y : List Char} (h : c ≠ '\\') : Spoken w y → Spoken (c :: w) (c :: y)
  | last : Spoken ['\\'] ['\\']
  | kept {d : Char} {w y : List Char} (h : d.isAlphanum = false) (hd : d ≠ '\\') :
      Spoken w y → Spoken ('\\' :: d :: w) ('\\' :: d :: y)
  | escape {taken w y : List Char} (hne : taken ≠ [])
      (htaken : ∀ c ∈ taken, c.isAlphanum = true ∨ c = '\\') (x : Char) :
      Spoken w y → Spoken ('\\' :: (taken ++ w)) (x :: y)

/-- Characters that are no backslashes come to themselves. -/
theorem Spoken.of_plain_append {u w y : List Char} (hu : '\\' ∉ u) (h : Spoken (u ++ w) y) :
    ∃ y', y = u ++ y' ∧ Spoken w y' := by
  induction u generalizing y with
  | nil => exact ⟨y, rfl, h⟩
  | cons c u ih =>
    rw [List.mem_cons, not_or] at hu
    generalize hs : c :: u ++ w = s at h
    cases h with
    | nil => cases hs
    | char hc h =>
      obtain ⟨rfl, rfl⟩ := List.cons.inj hs
      obtain ⟨y', rfl, hy'⟩ := ih hu.2 h
      exact ⟨y', rfl, hy'⟩
    | last => exact absurd (List.cons.inj hs).1.symm hu.1
    | kept hd hback h => exact absurd (List.cons.inj hs).1.symm hu.1
    | escape hne htaken x h => exact absurd (List.cons.inj hs).1.symm hu.1

theorem isAlphanum_of_control? {d x : Char} (h : control? d = some x) :
    d.isAlphanum = true ∨ d = '\\' := by
  have hall : ∀ d ∈ "abfnrtv\\".toList, d.isAlphanum = true ∨ d = '\\' := by decide
  exact hall d (mem_controls_iff.2 (h ▸ rfl))

theorem isAlphanum_of_isOctal (h : isOctal c = true) : c.isAlphanum = true := by
  have hall : ∀ c ∈ "01234567".toList, c.isAlphanum = true := by decide
  exact hall c (isOctal_iff.1 h)

/-- What follows the backslash of an escape that stands for one character. -/
theorem Escape.taken {taken : List Char} (h : Escape taken ps) :
    (taken ≠ [] ∧ (∀ c ∈ taken, c.isAlphanum = true ∨ c = '\\') ∧ ∃ x, ps = [.char x]) ∨
      (∃ name, taken = 'g' :: '<' :: (name ++ ['>']) ∧ ∃ p, Replacement.group name = .ok p) ∨
      ∃ d, taken = [d] ∧ d.isAlphanum = false ∧ d ≠ '\\' ∧ ps = [.char '\\', .char d] := by
  cases h with
  | control h =>
    refine .inl ⟨nofun, fun c hc => ?_, _, rfl⟩
    rw [List.mem_singleton.1 hc]
    exact isAlphanum_of_control? h
  | zero h x =>
    exact .inl ⟨nofun, List.forall_mem_cons.2 ⟨.inl (by decide), fun c hc =>
      .inl (isAlphanum_of_isOctal (h c hc))⟩, x, rfl⟩
  | triple ha h =>
    obtain ⟨ha, hb, hc⟩ := (octalTriple?_isSome_iff ha).1 (Option.isSome_of_eq_some h)
    refine .inl ⟨nofun, fun x hx => .inl (isAlphanum_of_isOctal ?_), _, rfl⟩
    simp only [List.mem_cons, List.not_mem_nil, or_false] at hx
    rcases hx with rfl | rfl | rfl
    · exact isOctal_of_le ha
    · exact hb
    · exact hc
  | group hname h => exact .inr (.inl ⟨_, rfl, _, h⟩)
  | kept h hd => exact .inr (.inr ⟨_, rfl, h, hd, rfl⟩)

/-- What is taken of two adjoining texts is of the first, up to a character that it cannot hold. -/
theorem taken_of_append_eq {taken s w post : List Char} {stop : Char} (hstop : stop ∉ taken)
    (h : taken ++ s = w ++ stop :: post) : ∃ w', w = taken ++ w' ∧ s = w' ++ stop :: post := by
  rcases List.append_eq_append_iff.1 h with ⟨v, rfl, rfl⟩ | ⟨v, rfl, hv⟩
  · exact ⟨v, rfl, rfl⟩
  · cases v with
    | nil => exact ⟨[], by simp, by simpa using hv.symm⟩
    | cons c v =>
      rw [List.cons_append, List.cons.injEq] at hv
      exact absurd (hv.1 ▸ by simp) hstop

/-- An escape in a text before a character that it cannot hold: it is of the text, or it is the last
backslash of that and keeps the character. -/
theorem Escape.within {taken w post : List Char} {stop : Char} (hstop : stop.isAlphanum = false)
    (hback : stop ≠ '\\')
    (hgroup : ∀ name t, stop :: post = '<' :: (name ++ '>' :: t) →
      ∀ p, Replacement.group name ≠ .ok p) (hw : '<' ∉ w) (h : Escape taken ps)
    (heq : taken ++ s = w ++ stop :: post) :
    (∃ w' x, w = taken ++ w' ∧ s = w' ++ stop :: post ∧ ps = x.map .char ∧
        ∀ y, Spoken w' y → Spoken ('\\' :: w) (x ++ y)) ∨
      w = [] ∧ s = post ∧ ps = ['\\', stop].map .char := by
  rcases h.taken with ⟨hne, htaken, x, rfl⟩ | ⟨name, rfl, p, hp⟩ | ⟨d, rfl, hd, hdback, rfl⟩
  · have hnot : stop ∉ taken := fun hmem => by
      rcases htaken stop hmem with halnum | hstop'
      · rw [hstop] at halnum
        cases halnum
      · exact hback hstop'
    obtain ⟨w', rfl, rfl⟩ := taken_of_append_eq hnot heq
    exact .inl ⟨w', [x], rfl, rfl, rfl, fun y hy => .escape hne htaken x hy⟩
  · -- the text has no bracket that could open a group
    rcases w with _ | ⟨c, _ | ⟨e, w⟩⟩
    · obtain ⟨rfl, -⟩ := List.cons.inj heq
      cases hstop
    · obtain ⟨rfl, hbracket⟩ := List.cons.inj heq
      have hclosed : stop :: post = '<' :: (name ++ '>' :: s) := by
        simpa using hbracket.symm
      exact absurd hp (hgroup name s hclosed p)
    · obtain ⟨rfl, hbracket⟩ := List.cons.inj heq
      obtain ⟨rfl, -⟩ := List.cons.inj hbracket
      exact absurd (by simp) hw
  · cases w with
    | nil =>
      obtain ⟨rfl, rfl⟩ := List.cons.inj heq
      exact .inr ⟨rfl, rfl, rfl⟩
    | cons e w =>
      obtain ⟨rfl, rfl⟩ := List.cons.inj heq
      exact .inl ⟨w, ['\\', d], rfl, rfl, rfl, fun y hy => .kept hd hdback hy⟩

/-- What a text in a template comes to, up to the character after it: no escape goes on over that,
unless it begins a group. -/
theorem spoken_of_parts {stop : Char} {post : List Char} (hstop : stop.isAlphanum = false)
    (hback : stop ≠ '\\')
    (hgroup : ∀ name t, stop :: post = '<' :: (name ++ '>' :: t) →
      ∀ p, Replacement.group name ≠ .ok p) {w : List Char} (hw : '<' ∉ w)
    (h : parts (w ++ stop :: post) = .ok qs) :
    ∃ y rs, Spoken w y ∧ parts post = .ok rs ∧ qs = y.map .char ++ .char stop :: rs := by
  refine parts_induction (motive := fun s qs => ∀ w, s = w ++ stop :: post → '<' ∉ w →
    ∃ y rs, Spoken w y ∧ parts post = .ok rs ∧ qs = y.map .char ++ .char stop :: rs)
    ?nil ?char ?escape h w rfl hw
  case nil =>
    intro w hs
    cases w <;> cases hs
  case char =>
    intro c s ps hc hs ih w heq hw
    cases w with
    | nil =>
      cases heq
      exact ⟨[], ps, .nil, hs, rfl⟩
    | cons d w =>
      obtain ⟨rfl, rfl⟩ := List.cons.inj heq
      obtain ⟨y, rs, hy, hrs, rfl⟩ := ih w rfl fun hmem => hw (List.mem_cons_of_mem _ hmem)
      exact ⟨c :: y, rs, .char hc hy, hrs, rfl⟩
  case escape =>
    intro taken ps s qs hescape hs ih w heq hw
    cases w with
    | nil => exact absurd (List.cons.inj heq).1.symm hback
    | cons d w =>
      obtain ⟨rfl, htail⟩ := List.cons.inj heq
      rw [List.mem_cons, not_or] at hw
      rcases hescape.within hstop hback hgroup hw.2 htail with
        ⟨w', x, rfl, rfl, rfl, hspoken⟩ | ⟨rfl, rfl, rfl⟩
      · obtain ⟨y, rs, hy, hrs, rfl⟩ := ih w' rfl fun hmem => hw.2 (List.mem_append_right _ hmem)
        exact ⟨x ++ y, rs, hspoken y hy, hrs, by rw [List.map_append, List.append_assoc]⟩
      · exact ⟨['\\'], qs, .last, hs, rfl⟩

/-! ## A text between others -/

section
variable {u w post : List Char} {stop : Char} (hu : '\\' ∉ u) (hpost : '\\' ∉ post)
  (hstop : stop.isAlphanum = false) (hback : stop ≠ '\\')
include hu hpost hstop hback

/-- What a template comes to that is one text between others without backslashes. -/
theorem spoken_between
    (hgroup : ∀ name t, stop :: post = '<' :: (name ++ '>' :: t) →
      ∀ p, Replacement.group name ≠ .ok p) (hw : '<' ∉ w)
    (h : parts (u ++ (w ++ stop :: post)) = .ok qs) :
    ∃ y, Spoken w y ∧ qs = (u ++ (y ++ stop :: post)).map .char := by
  obtain ⟨rs, hrs, rfl⟩ := (parts_plain_append hu).1 h
  obtain ⟨y, ts, hy, hts, rfl⟩ := spoken_of_parts hstop hback hgroup hw hrs
  rw [parts_of_plain hpost] at hts
  cases hts
  refine ⟨y, hy, ?_⟩
  rw [List.map_append, List.map_append]
  rfl

/-- A literal text between others without backslashes is read as it is written. -/
theorem parts_between (hw : Literal w) :
    parts (u ++ (w ++ stop :: post)) = .ok ((u ++ (w ++ stop :: post)).map .char) := by
  have hrest := (parts_of_literal hstop hback hw).2 ⟨_, parts_of_plain hpost, rfl⟩
  rw [(parts_plain_append hu).2 ⟨_, hrest, rfl⟩, List.map_append, List.map_append]
  rfl

end

/-! ## What a text comes to -/

theorem Spoken.length_le {w y : List Char} (h : Spoken w y) : y.length ≤ w.length := by
  induction h with
  | nil => exact Nat.le_refl _
  | char _ _ ih => exact Nat.succ_le_succ ih
  | last => exact Nat.le_refl _
  | kept _ _ _ ih => exact Nat.succ_le_succ (Nat.succ_le_succ ih)
  | escape _ _ _ _ ih =>
    rw [List.length_cons, List.length_cons, List.length_append]
    omega

/-- A text that comes to one as long is literal. -/
theorem Spoken.literal_of_length {w y : List Char} (h : Spoken w y)
    (hlength : w.length ≤ y.length) : Literal w := by
  induction h with
  | nil => trivial
  | char hc _ ih => exact ⟨fun heq => absurd heq hc, ih (Nat.le_of_succ_le_succ hlength)⟩
  | last =>
    refine ⟨fun _ d hd => ?_, trivial⟩
    cases hd
  | @kept d w y hd hdback _ ih =>
    refine ⟨fun _ e he => ?_, fun heq => absurd heq hdback,
      ih (Nat.le_of_succ_le_succ (Nat.le_of_succ_le_succ hlength))⟩
    cases he
    exact ⟨hd, hdback⟩
  | escape hne _ _ hy _ =>
    have hle := hy.length_le
    have hpos := List.length_pos_iff.2 hne
    rw [List.length_cons, List.length_cons, List.length_append] at hlength
    omega

end
end RouteDocs.Html.Replacement
