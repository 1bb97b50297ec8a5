import RouteDocs.Html.LinkTemplate
import RouteDocs.Proofs.Bind

/-!
# What a link template is filled in with

A link template is read as characters and fields. A field is shown for every target
if it is for one of a single character. It shows the whole target if it names that,
does not quote it and does not limit it; any other field shows of a target of one
character, again and again, no more than a fixed number of them, provided that the
character is not printable. This is said of the flat templates: what is found under
the name of an attribute belongs to the class of a text, not to the text.

Results:
* `Reads.unique`: a template has its pieces only.
* `reads_of_fillWithin`, `fillWithin_eq`: a template is filled in piece by piece.
* `Field.shown_of_single`, `Field.infix_of_whole`, `Field.exists_bound`: what fields show.
* `shows_iff`: when a template shows all its targets.
-/
namespace RouteDocs.Html.LinkTemplate

/-! ## Pieces of a template -/

inductive TemplatePiece where
  | char (c : Char)
  | field (f : Field)

/-- A template by its pieces: double braces are braces, a single one opens a field. -/
inductive Reads : List Char → List TemplatePiece → Prop where
  | nil : Reads [] []
  | char {c : Char} {s : List Char} {ps : List TemplatePiece} (hopen : c ≠ '{') (hclose : c ≠ '}') :
      Reads s ps → Reads (c :: s) (.char c :: ps)
  | opening {s : List Char} {ps : List TemplatePiece} :
      Reads s ps → Reads ('{' :: '{' :: s) (.char '{' :: ps)
  | closing {s : List Char} {ps : List TemplatePiece} :
      Reads s ps → Reads ('}' :: '}' :: s) (.char '}' :: ps)
  | field {s rest : List Char} {f : Field} {ps : List TemplatePiece} (hs : s.head? ≠ some '{')
      (h : readField s = .ok (f, rest)) : Reads rest ps → Reads ('{' :: s) (.field f :: ps)

/-- A template has its pieces only. -/
theorem Reads.unique {s : List Char} {ps qs : List TemplatePiece} (h : Reads s ps)
    (h' : Reads s qs) : ps = qs := by
  induction h generalizing qs with
  | nil =>
    cases h'
    rfl
  | char hopen hclose _ ih =>
    cases h' with
    | char _ _ h' => rw [ih h']
    | opening => exact absurd rfl hopen
    | closing => exact absurd rfl hclose
    | field => exact absurd rfl hopen
  | opening _ ih =>
    cases h' with
    | char hopen => exact absurd rfl hopen
    | opening h' => rw [ih h']
    | field hs => exact absurd rfl hs
  | closing _ ih =>
    cases h' with
    | char _ hclose => exact absurd rfl hclose
    | closing h' => rw [ih h']
  | field hs hfield _ ih =>
    cases h' with
    | char hopen => exact absurd rfl hopen
    | opening => exact absurd rfl hs
    | field _ hfield' h' =>
      cases hfield.symm.trans hfield'
      rw [ih h']

theorem Reads.plain_append {u s : List Char} {ps : List TemplatePiece}
    (hu : ∀ c ∈ u, c ≠ '{' ∧ c ≠ '}') (h : Reads s ps) : Reads (u ++ s) (u.map .char ++ ps) := by
  induction u with
  | nil => exact h
  | cons c u ih =>
    obtain ⟨⟨hopen, hclose⟩, hu⟩ := List.forall_mem_cons.1 hu
    exact .char hopen hclose (ih hu)

theorem eq_of_field_mem {u : List Char} {f f' : Field}
    (h : TemplatePiece.field f ∈ u.map TemplatePiece.char ++ [.field f']) : f = f' := by
  rcases List.mem_append.1 h with h | h
  · obtain ⟨c, -, heq⟩ := List.mem_map.1 h
    cases heq
  · cases List.mem_singleton.1 h
    rfl

def Field.shown (f : Field) (target : List Char) : Except Fault (List Char) := do
  formatted f.format (← convert f.conversion (← resolve target f.name))

def fillPieces (target : List Char) : List TemplatePiece → Except Fault (List Char)
  | [] => .ok []
  | .char c :: ps => (fillPieces target ps).map (c :: ·)
  | .field f :: ps => do
    let shown ← f.shown target
    (fillPieces target ps).map (shown ++ ·)

/-! ## Reading fields -/

section
variable {s rest name format : List Char} {stop : Char} {f : Field}

theorem length_fieldName {inIndex : Bool} (h : fieldName inIndex s = .ok (name, stop, rest)) :
    rest.length < s.length := by
  fun_induction fieldName inIndex s generalizing name with
  | case1 => cases h
  | case2 c s ih =>
    obtain ⟨⟨n, x, r⟩, hmore, heq⟩ := map_eq_ok h
    cases heq
    exact Nat.lt_succ_of_lt (ih hmore)
  | case3 => cases h
  | case4 c s =>
    cases h
    exact Nat.lt_succ_self _
  | case5 _ c s _ _ _ ih =>
    obtain ⟨⟨n, x, r⟩, hmore, heq⟩ := map_eq_ok h
    cases heq
    exact Nat.lt_succ_of_lt (ih hmore)

theorem length_fieldFormat {depth : Nat} (h : fieldFormat depth s = .ok (format, rest)) :
    rest.length < s.length := by
  fun_induction fieldFormat depth s generalizing format with
  | case1 => cases h
  | case3 =>
    cases h
    exact Nat.lt_succ_self _
  | case2 _ _ ih | case4 _ _ _ ih | case5 _ _ _ _ _ ih =>
    obtain ⟨⟨n, r⟩, hmore, heq⟩ := map_eq_ok h
    cases heq
    exact Nat.lt_succ_of_lt (ih hmore)

theorem length_readField (h : readField s = .ok (f, rest)) : rest.length < s.length := by
  rw [readField] at h
  obtain ⟨⟨name, stop, more⟩, hname, h⟩ := bind_eq_ok h
  have hmore := length_fieldName hname
  dsimp only at h
  split at h
  · cases h
    exact hmore
  · split at h
    · obtain ⟨⟨format, after⟩, hformat, h⟩ := bind_eq_ok h
      cases h
      exact Nat.lt_trans (length_fieldFormat hformat) hmore
    · split at h
      · cases h
        simp only [List.length_cons] at hmore
        omega
      · obtain ⟨⟨format, after⟩, hformat, h⟩ := bind_eq_ok h
        cases h
        have hafter := length_fieldFormat hformat
        simp only [List.length_cons] at hmore
        exact Nat.lt_trans hafter (by omega)
      · cases h

end

/-! ## Filling in piece by piece -/

section
variable {target : List Char} {fuel depth : Nat} {c : Char} {rest : List Char}

theorem fillWithin_char (hopen : c ≠ '{') (hclose : c ≠ '}') :
    fillWithin target (fuel + 1) (depth + 1) (c :: rest) =
      (fillWithin target fuel (depth + 1) rest).map (c :: ·) := by
  rw [fillWithin.eq_def]
  simp only [if_neg hopen, if_neg hclose]

theorem fillWithin_opening :
    fillWithin target (fuel + 1) (depth + 1) ('{' :: '{' :: rest) =
      (fillWithin target fuel (depth + 1) rest).map ('{' :: ·) := by
  rw [fillWithin.eq_def]
  simp only [if_true]

theorem fillWithin_closing :
    fillWithin target (fuel + 1) (depth + 1) ('}' :: '}' :: rest) =
      (fillWithin target fuel (depth + 1) rest).map ('}' :: ·) := by
  rw [fillWithin.eq_def]
  simp only [if_true, if_neg (show '}' ≠ '{' by decide)]

theorem fillWithin_field (hs : rest.head? ≠ some '{') :
    fillWithin target (fuel + 1) (depth + 1) ('{' :: rest) =
      readField rest >>= fun (f, after) =>
        resolve target f.name >>= fun part =>
          convert f.conversion part >>= fun value =>
            (if f.format.contains '{' then fillWithin target fuel depth f.format
              else .ok f.format) >>= fun format =>
              formatted format value >>= fun shown =>
                (fillWithin target fuel (depth + 1) after).map (shown ++ ·) := by
  rw [fillWithin.eq_def]
  simp only [if_true]
  split
  · exact absurd rfl hs
  · congr 1
    funext ⟨f, after⟩
    dsimp only
    split <;> rfl

theorem fillWithin_closed (hs : rest.head? ≠ some '}') :
    fillWithin target (fuel + 1) (depth + 1) ('}' :: rest) = refuse .form := by
  rw [fillWithin.eq_def]
  simp only [if_true, if_neg (show '}' ≠ '{' by decide)]
  split
  · exact absurd rfl hs
  · rfl

/-- A template that can be filled in has pieces. -/
theorem reads_of_fillWithin {s out : List Char}
    (h : fillWithin target fuel (depth + 1) s = .ok out) : ∃ ps, Reads s ps := by
  induction fuel generalizing s out with
  | zero =>
    cases s with
    | nil => exact ⟨[], .nil⟩
    | cons c rest => cases h
  | succ fuel ih =>
    cases s with
    | nil => exact ⟨[], .nil⟩
    | cons c rest =>
      by_cases hopen : c = '{'
      · subst hopen
        by_cases hs : rest.head? = some '{'
        · obtain ⟨rest, rfl⟩ : ∃ t, rest = '{' :: t := List.head?_eq_some_iff.1 hs
          rw [fillWithin_opening] at h
          obtain ⟨_, hmore, -⟩ := map_eq_ok h
          obtain ⟨ps, hps⟩ := ih hmore
          exact ⟨_, .opening hps⟩
        · rw [fillWithin_field hs] at h
          obtain ⟨⟨f, rest⟩, hfield, h⟩ := bind_eq_ok h
          obtain ⟨_, -, h⟩ := bind_eq_ok h
          obtain ⟨_, -, h⟩ := bind_eq_ok h
          obtain ⟨_, -, h⟩ := bind_eq_ok h
          obtain ⟨_, -, h⟩ := bind_eq_ok h
          obtain ⟨_, hmore, -⟩ := map_eq_ok h
          obtain ⟨ps, hps⟩ := ih hmore
          exact ⟨_, .field hs hfield hps⟩
      · by_cases hclose : c = '}'
        · subst hclose
          by_cases hs : rest.head? = some '}'
          · obtain ⟨rest, rfl⟩ : ∃ t, rest = '}' :: t := List.head?_eq_some_iff.1 hs
            rw [fillWithin_closing] at h
            obtain ⟨_, hmore, -⟩ := map_eq_ok h
            obtain ⟨ps, hps⟩ := ih hmore
            exact ⟨_, .closing hps⟩
          · rw [fillWithin_closed hs] at h
            cases h
        · rw [fillWithin_char hopen hclose] at h
          obtain ⟨_, hmore, -⟩ := map_eq_ok h
          obtain ⟨ps, hps⟩ := ih hmore
          exact ⟨_, .char hopen hclose hps⟩

/-- No field looks up an attribute, or has a format with placeholders in it. -/
structure Flat (ps : List TemplatePiece) : Prop where
  name : ∀ f, .field f ∈ ps → '.' ∉ f.name
  format : ∀ f, .field f ∈ ps → '{' ∉ f.format

theorem Flat.tail {p : TemplatePiece} {ps : List TemplatePiece} (h : Flat (p :: ps)) : Flat ps :=
  ⟨fun f hf => h.name f (List.mem_cons_of_mem p hf),
    fun f hf => h.format f (List.mem_cons_of_mem p hf)⟩

/-- A template is filled in piece by piece. -/
theorem fillWithin_eq {s : List Char} {ps : List TemplatePiece} (hs : Reads s ps) (hflat : Flat ps)
    (hfuel : s.length ≤ fuel) : fillWithin target fuel (depth + 1) s = fillPieces target ps := by
  induction hs generalizing fuel with
  | nil => cases fuel <;> rfl
  | char hopen hclose _ ih =>
    obtain ⟨fuel, rfl⟩ := Nat.exists_eq_succ_of_ne_zero (Nat.ne_zero_of_lt hfuel)
    rw [fillWithin_char hopen hclose, ih hflat.tail (Nat.le_of_succ_le_succ hfuel), fillPieces]
  | opening _ ih =>
    obtain ⟨fuel, rfl⟩ := Nat.exists_eq_succ_of_ne_zero (Nat.ne_zero_of_lt hfuel)
    have hless := Nat.le_of_succ_le (Nat.le_of_succ_le_succ hfuel)
    rw [fillWithin_opening, ih hflat.tail hless, fillPieces]
  | closing _ ih =>
    obtain ⟨fuel, rfl⟩ := Nat.exists_eq_succ_of_ne_zero (Nat.ne_zero_of_lt hfuel)
    have hless := Nat.le_of_succ_le (Nat.le_of_succ_le_succ hfuel)
    rw [fillWithin_closing, ih hflat.tail hless, fillPieces]
  | @field s rest f ps hhead hfield _ ih =>
    obtain ⟨fuel, rfl⟩ := Nat.exists_eq_succ_of_ne_zero (Nat.ne_zero_of_lt hfuel)
    have hshort : rest.length ≤ fuel :=
      Nat.le_trans (Nat.le_of_lt (length_readField hfield)) (Nat.le_of_succ_le_succ hfuel)
    have hplain : f.format.contains '{' = false := by
      simpa using hflat.format f List.mem_cons_self
    rw [fillWithin_field hhead, hfield, fillPieces, Field.shown, ← ih hflat.tail hshort]
    cases hpart : resolve target f.name with
    | error e => simp only [bind, Except.bind, hpart]
    | ok part =>
      cases hvalue : convert f.conversion part with
      | error e => simp only [bind, Except.bind, hpart, hvalue]
      | ok value =>
        simp only [bind, Except.bind, hpart, hvalue, hplain, Bool.false_eq_true, if_false]

end

/-! ## Parts of a target -/

/-- The number in the brackets at the head of a name, and what follows them. -/
def readIndex (s : List Char) : Except Fault (Nat × List Char) :=
  let index := s.takeWhile (· ≠ ']')
  match s.drop index.length with
  | [] => refuse .form
  | _ :: after => do
    let i ← wholeNumber index
    if index.isEmpty then refuse .form
    match i with
    | some i => return (i, after)
    | none => refuse .index

section
variable {fuel : Nat} {p q : Part} {s : List Char}

theorem pick_index (fuel : Nat) (p : Part) (s : List Char) :
    pick (fuel + 1) p ('[' :: s) =
      readIndex s >>= fun (i, after) => p.item i >>= fun q => pick fuel q after := by
  rw [pick, readIndex]
  generalize hindex : s.takeWhile (· ≠ ']') = index
  cases s.drop index.length with
  | nil => rfl
  | cons _ after =>
    cases hnumber : wholeNumber index with
    | error e => rfl
    | ok i => cases hempty : index.isEmpty <;> cases i <;> rfl

theorem pick_other {c : Char} (hindex : c ≠ '[') (hname : c ≠ '.') (fuel : Nat) (p : Part)
    (s : List Char) : pick (fuel + 1) p (c :: s) = refuse .form := by
  simp [pick, hindex, hname]

theorem item_single {x : Char} {i : Nat} (h : (Part.text [x]).item i = .ok q) :
    i = 0 ∧ q = .text [x] := by
  cases i with
  | zero =>
    cases h
    exact ⟨rfl, rfl⟩
  | succ i => cases h

theorem suffix_of_readIndex {i : Nat} {after : List Char} (h : readIndex s = .ok (i, after)) :
    after <:+ s := by
  unfold readIndex at h
  dsimp only at h
  split at h
  · cases h
  · rename_i bracket rest hrest
    obtain ⟨number, -, h⟩ := bind_eq_ok h
    have hafter : rest = after := by
      split at h
      · cases h
      · cases number with
        | none => cases h
        | some n =>
          cases h
          rfl
    exact hafter ▸ (List.suffix_cons bracket rest).trans (hrest ▸ List.drop_suffix _ s)

/-- What is picked out of a text without a look-up of attributes: the text, or its first
character. -/
theorem pick_text {x : Char} (hs : '.' ∉ s) (h : pick fuel (.text [x]) s = .ok p) :
    s = [] ∨ ∀ c t, pick fuel (.text (c :: t)) s = .ok (.text [c]) := by
  induction fuel generalizing s with
  | zero =>
    cases s with
    | nil => exact .inl rfl
    | cons c s => cases h
  | succ fuel ih =>
    cases s with
    | nil => exact .inl rfl
    | cons c s =>
      obtain ⟨hname, hrest⟩ := not_or.1 (mt List.mem_cons.2 hs)
      by_cases hindex : c = '['
      · subst hindex
        rw [pick_index] at h
        obtain ⟨⟨i, after⟩, hread, h⟩ := bind_eq_ok h
        obtain ⟨q, hitem, h⟩ := bind_eq_ok h
        obtain ⟨rfl, rfl⟩ := item_single hitem
        have hstep : ∀ c t, pick (fuel + 1) (.text (c :: t)) ('[' :: s) =
            pick fuel (.text [c]) after := by
          intro c t
          rw [pick_index, hread]
          rfl
        right
        intro c t
        rw [hstep]
        rcases ih (fun hmem => hrest ((suffix_of_readIndex hread).mem hmem)) h with rfl | hfirst
        · cases fuel <;> rfl
        · exact hfirst c []
      · rw [pick_other hindex (Ne.symm hname)] at h
        cases h

theorem resolve_eq_pick {target name : List Char} (h : resolve target name = .ok p) :
    ∃ s, name = "target".toList ++ s ∧ ∀ t, resolve t name = pick name.length (.text t) s := by
  have hbegins : name.takeWhile (fun c => c ≠ '.' ∧ c ≠ '[') <+: name := List.takeWhile_prefix _
  unfold resolve at h ⊢
  generalize name.takeWhile (fun c => c ≠ '.' ∧ c ≠ '[') = first at h hbegins ⊢
  obtain ⟨s, rfl⟩ := hbegins
  dsimp only at h ⊢
  obtain ⟨n, hnumber, h⟩ := bind_eq_ok h
  split at h
  · cases h
  · split at h
    · cases h
    · rename_i hposition hname
      obtain rfl : first = "target".toList := Classical.not_not.1 hname
      refine ⟨s, rfl, fun t => ?_⟩
      rw [hnumber, List.drop_left]
      simp only [bind, Except.bind, if_neg hposition, if_neg hname]

/-- What a field name stands for, if it stands for anything of a target of one character: the whole
target, or its first character. -/
theorem resolve_text {name : List Char} {x : Char} (hname : '.' ∉ name)
    (h : resolve [x] name = .ok p) :
    (name = "target".toList ∧ ∀ t, resolve t name = .ok (.text t)) ∨
      ∀ c t, resolve (c :: t) name = .ok (.text [c]) := by
  obtain ⟨s, rfl, hpick⟩ := resolve_eq_pick h
  rw [hpick] at h
  rcases pick_text (fun hmem => hname (List.mem_append_right _ hmem)) h with rfl | hfirst
  · exact .inl ⟨List.append_nil _, fun t => (hpick t).trans rfl⟩
  · exact .inr fun c t => (hpick _).trans (hfirst c t)

end

/-! ## Formats -/

section
variable {format s out : List Char} {g : FieldFormat}

/-- As much of a text as a format lets through. -/
def limited (g : FieldFormat) (s : List Char) : List Char :=
  match g.limit with
  | some n => s.take n
  | none => s

theorem length_limited_le (g : FieldFormat) (s : List Char) : (limited g s).length ≤ s.length := by
  unfold limited
  split
  · exact List.length_take_le' _ _
  · exact Nat.le_refl _

theorem applyFormat_eq (g : FieldFormat) (s : List Char) :
    applyFormat g s =
      let missing := g.width - (limited g s).length
      let left := if g.side = '>' then missing else if g.side = '^' then missing / 2 else 0
      if maxWidth < g.width ∧ missing ≠ 0 then refuse .width
      else .ok (List.replicate left g.fill ++ limited g s ++
        List.replicate (missing - left) g.fill) :=
  rfl

theorem applyFormat_ok (h : applyFormat g s = .ok out) :
    ∃ i j, i + j ≤ g.width ∧
      out = List.replicate i g.fill ++ limited g s ++ List.replicate j g.fill := by
  rw [applyFormat_eq] at h
  dsimp only at h
  split at h
  · cases h
  · refine ⟨_, _, ?_, (Except.ok.inj h).symm⟩
    split
    · omega
    · split <;> omega

theorem applyFormat_of_short (h : applyFormat g s = .ok out) (hs : s.length ≤ maxWidth)
    (t : List Char) : ∃ out', applyFormat g t = .ok out' := by
  rw [applyFormat_eq] at h ⊢
  dsimp only at h ⊢
  have hwidth : g.width ≤ maxWidth := by
    by_cases hmissing : g.width - (limited g s).length = 0
    · have hlength := length_limited_le g s
      omega
    · refine Nat.le_of_not_lt fun hlt => ?_
      rw [if_pos ⟨hlt, hmissing⟩] at h
      cases h
  rw [if_neg fun hboth => Nat.not_lt.2 hwidth hboth.1]
  exact ⟨_, rfl⟩

theorem formatted_of_short (h : formatted format (.text s) = .ok out) (hs : s.length ≤ maxWidth)
    (t : List Char) : ∃ out', formatted format (.text t) = .ok out' := by
  by_cases hformat : format = []
  · exact ⟨t, by rw [hformat]; rfl⟩
  · rw [formatted, if_neg (by simpa using hformat)] at h ⊢
    obtain ⟨g, hg, h⟩ := bind_eq_ok h
    obtain ⟨out', hout⟩ := applyFormat_of_short h hs t
    exact ⟨out', by rw [hg]; exact hout⟩

end

/-! ## Conversions -/

theorem convert_text {conversion : Option Char} {a : List Char} {p : Part}
    (h : convert conversion (.text a) = .ok p) :
    ((conversion = none ∨ conversion = some 's') ∧
        ∀ s, convert conversion (.text s) = .ok (.text s)) ∨
      ∃ plain : Char → Bool, (∀ c, Text.isPrintable c = false → plain c = false) ∧
        ∀ s, convert conversion (.text s) = .ok (.text (Text.quotedWith plain s)) := by
  unfold convert at h
  split at h
  · exact .inl ⟨.inl rfl, fun s => rfl⟩
  · exact .inl ⟨.inr rfl, fun s => rfl⟩
  · exact .inr ⟨_, fun c hc => hc, fun s => rfl⟩
  · refine .inr ⟨fun c => Text.isPrintable c && c.toNat < 0x80, fun c hc => ?_, fun s => rfl⟩
    exact Bool.and_eq_false_iff.2 (.inl hc)
  · cases h

def quoteOf (s : List Char) : Char :=
  Text.quoteFor (Text.WideText.ofChars s)

theorem quoteOf_eq (s : List Char) : quoteOf s = '"' ∨ quoteOf s = '\'' := by
  rw [quoteOf, Text.quoteFor]
  split
  · exact .inl rfl
  · exact .inr rfl

theorem quotedWith_eq (plain : Char → Bool) (s : List Char) :
    Text.quotedWith plain s =
      quoteOf s :: (s.flatMap (Text.quotedChar plain (quoteOf s)) ++ [quoteOf s]) := by
  rw [Text.quotedWith, Text.quotedWideWith, Text.WideText.ofChars, List.flatMap_map]
  rfl

theorem length_quotedWith_x (plain : Char → Bool) : (Text.quotedWith plain ['x']).length ≤ 6 := by
  have hchar : (Text.quotedChar plain '\'' 'x').length ≤ 4 := by
    cases h : plain 'x' with
    | true => simp [Text.quotedChar, h]
    | false =>
      simp only [Text.quotedChar, h]
      decide
  have hquote : quoteOf ['x'] = '\'' := by decide
  rw [quotedWith_eq, hquote, List.flatMap_singleton, List.length_cons, List.length_append,
    List.length_singleton]
  omega

/-- A character that is not printable. -/
def unprinted : Char := '\x01'

theorem notMem_quotedWith {plain : Char → Bool} (h : plain unprinted = false) (n : Nat) :
    unprinted ∉ Text.quotedWith plain (List.replicate n unprinted) := by
  have hquote := quoteOf_eq (List.replicate n unprinted)
  rw [quotedWith_eq]
  generalize quoteOf (List.replicate n unprinted) = quote at hquote ⊢
  have hne : unprinted ≠ quote := by
    rcases hquote with rfl | rfl <;> decide
  have hchar : Text.quotedChar plain quote unprinted = Text.codePointEscape unprinted := by
    have hback : unprinted ≠ '\\' := by decide
    have hshort : unprinted ≠ '\n' ∧ unprinted ≠ '\r' ∧ unprinted ≠ '\t' := by decide
    simp [Text.quotedChar, hne, hback, hshort, h]
  have hescape : unprinted ∉ Text.codePointEscape unprinted := by decide
  intro hmem
  rcases List.mem_cons.1 hmem with heq | hmem
  · exact hne heq
  · rcases List.mem_append.1 hmem with hmem | hmem
    · obtain ⟨c, hc, hmem⟩ := List.mem_flatMap.1 hmem
      rw [(List.mem_replicate.1 hc).2, hchar] at hmem
      exact hescape hmem
    · exact hne (List.mem_singleton.1 hmem)

section
variable {f : Field} {out : List Char}

theorem Field.shown_ok {target : List Char} (h : f.shown target = .ok out) :
    ∃ p v, resolve target f.name = .ok p ∧ convert f.conversion p = .ok v ∧
      formatted f.format v = .ok out := by
  obtain ⟨p, hp, h⟩ := bind_eq_ok h
  obtain ⟨v, hv, h⟩ := bind_eq_ok h
  exact ⟨p, v, hp, hv, h⟩

theorem Field.shown_eq {target : List Char} {p v : Part} (hp : resolve target f.name = .ok p)
    (hv : convert f.conversion p = .ok v) : f.shown target = formatted f.format v := by
  rw [Field.shown, hp]
  simp only [bind, Except.bind, hv]

/-- A field that can be shown for one character can be for every target. -/
theorem Field.shown_of_single (hname : '.' ∉ f.name) (h : f.shown ['x'] = .ok out) (c : Char)
    (t : List Char) : ∃ out', f.shown (c :: t) = .ok out' := by
  obtain ⟨p, v, hp, hv, hout⟩ := Field.shown_ok h
  have htext : ∀ a, p = .text ['x'] → resolve (c :: t) f.name = .ok (.text a) →
      ∃ out', f.shown (c :: t) = .ok out' := by
    rintro a rfl ha
    rcases convert_text hv with ⟨-, hconvert⟩ | ⟨plain, -, hconvert⟩
    · obtain rfl : Part.text ['x'] = v := Except.ok.inj ((hconvert _).symm.trans hv)
      rw [Field.shown_eq ha (hconvert a)]
      exact formatted_of_short hout (by decide) a
    · obtain rfl : Part.text (Text.quotedWith plain ['x']) = v :=
        Except.ok.inj ((hconvert _).symm.trans hv)
      rw [Field.shown_eq ha (hconvert a)]
      exact formatted_of_short hout (Nat.le_trans (length_quotedWith_x plain) (by decide)) _
  rcases resolve_text hname hp with ⟨-, hwhole⟩ | hfirst
  · exact htext _ (Except.ok.inj (hp.symm.trans (hwhole _))) (hwhole _)
  · exact htext _ (Except.ok.inj (hp.symm.trans (hfirst _ []))) (hfirst c t)

/-- A field shows the whole target: it names that, does not quote it and does not limit it. -/
structure Field.Whole (f : Field) : Prop where
  name : f.name = "target".toList
  conversion : f.conversion = none ∨ f.conversion = some 's'
  format : ∃ g, readFormat f.format = .ok g ∧ g.limit = none

theorem resolve_target (t : List Char) : resolve t "target".toList = .ok (.text t) := by
  have hsome : (resolve [] "target".toList).toOption = some (.text []) := by decide
  cases h : resolve [] "target".toList with
  | error e =>
    rw [h] at hsome
    cases hsome
  | ok p =>
    obtain ⟨s, hname, hpick⟩ := resolve_eq_pick h
    obtain rfl : s = [] := (List.self_eq_append_right.1 hname)
    exact hpick t

theorem infix_of_formatted {format t : List Char} (h : formatted format (.text t) = .ok out)
    (hformat : ∃ g, readFormat format = .ok g ∧ g.limit = none) : t <:+: out := by
  obtain ⟨g, hg, hlimit⟩ := hformat
  rw [formatted, hg] at h
  split at h
  · cases h
    exact List.infix_rfl
  · obtain ⟨i, j, -, rfl⟩ := applyFormat_ok h
    rw [limited, hlimit]
    exact ⟨_, _, rfl⟩

theorem Field.infix_of_whole (hwhole : f.Whole) {t : List Char} (h : f.shown t = .ok out) :
    t <:+: out := by
  have hconvert : convert f.conversion (.text t) = .ok (.text t) := by
    rcases hwhole.conversion with hnone | hnone
    · rw [hnone]
      rfl
    · rw [hnone]
      rfl
  have hresolve := resolve_target t
  rw [← hwhole.name] at hresolve
  rw [Field.shown_eq hresolve hconvert] at h
  exact infix_of_formatted h hwhole.format

/-- Of a character, a format shows no more than its width besides what it lets through. -/
theorem count_applyFormat {g : FieldFormat} {s : List Char} (h : applyFormat g s = .ok out)
    (c : Char) : out.count c ≤ g.width + (limited g s).count c := by
  obtain ⟨i, j, hwidth, rfl⟩ := applyFormat_ok h
  have hi := List.count_le_length (a := c) (l := List.replicate i g.fill)
  have hj := List.count_le_length (a := c) (l := List.replicate j g.fill)
  rw [List.length_replicate] at hi hj
  rw [List.count_append, List.count_append]
  omega

theorem count_limited_le (g : FieldFormat) (s : List Char) (c : Char) :
    (limited g s).count c ≤ s.count c := by
  unfold limited
  split
  · exact (List.take_sublist _ s).count_le c
  · exact Nat.le_refl _

/-- What a format shows of texts that hold no more than so many of a character. -/
theorem exists_bound_formatted {ι : Type} {format : List Char} {text : ι → List Char} {c : Char}
    {k : Nat} (hbound : ∀ g, readFormat format = .ok g → ∀ i, (limited g (text i)).count c ≤ k)
    (hplain : format = [] → ∀ i, (text i).count c ≤ k) :
    ∃ bound, ∀ i out, formatted format (.text (text i)) = .ok out → out.count c ≤ bound := by
  by_cases hformat : format = []
  · refine ⟨k, fun i out h => ?_⟩
    rw [hformat] at h
    cases h
    exact hplain hformat i
  · cases hg : readFormat format with
    | error e =>
      refine ⟨0, fun i out h => ?_⟩
      rw [formatted, if_neg (by simpa using hformat), hg] at h
      cases h
    | ok g =>
      refine ⟨g.width + k, fun i out h => ?_⟩
      rw [formatted, if_neg (by simpa using hformat), hg] at h
      have hcount := count_applyFormat h c
      have hlimited := hbound g hg i
      omega

/-- A format with a limit shows no more than so many of a character. -/
theorem exists_bound_of_limit {format : List Char} (c : Char)
    (hlimit : ∀ g, readFormat format = .ok g → g.limit ≠ none) :
    ∃ bound, ∀ s out, formatted format (.text s) = .ok out → out.count c ≤ bound := by
  have hne : format ≠ [] := by
    rintro rfl
    exact hlimit ⟨' ', '<', 0, none⟩ rfl rfl
  cases hg : readFormat format with
  | error e =>
    refine exists_bound_formatted (k := 0) (fun g h => ?_) fun h => absurd h hne
    rw [hg] at h
    cases h
  | ok g =>
    obtain ⟨k, hk⟩ := Option.ne_none_iff_exists'.1 (hlimit g hg)
    refine exists_bound_formatted (k := k) (fun g' h s => ?_) fun h => absurd h hne
    obtain rfl : g = g' := Except.ok.inj (hg.symm.trans h)
    rw [limited, hk]
    exact Nat.le_trans List.count_le_length (List.length_take_le _ _)

/-- A field that does not show the whole target shows of one that repeats a character which is not
printable no more than so many characters. -/
theorem Field.exists_bound (hname : '.' ∉ f.name) (h : f.shown ['x'] = .ok out)
    (hwhole : ¬f.Whole) :
    ∃ bound, ∀ n out, f.shown (unprinted :: List.replicate n unprinted) = .ok out →
      out.count unprinted ≤ bound := by
  obtain ⟨p, v, hp, hv, hout⟩ := Field.shown_ok h
  rcases resolve_text hname hp with ⟨htext, htarget⟩ | hfirst
  · obtain rfl : Part.text ['x'] = p := Except.ok.inj ((htarget _).symm.trans hp)
    rcases convert_text hv with ⟨hconversion, hconvert⟩ | ⟨plain, hplain, hconvert⟩
    · simp only [fun t => Field.shown_eq (htarget t) (hconvert t)]
      -- the format has a limit
      have hlimit : ∀ g, readFormat f.format = .ok g → g.limit ≠ none := fun g hg hnone =>
        hwhole ⟨htext, hconversion, g, hg, hnone⟩
      obtain ⟨bound, hbound⟩ := exists_bound_of_limit unprinted hlimit
      exact ⟨bound, fun n => hbound _⟩
    · simp only [fun t => Field.shown_eq (htarget t) (hconvert t)]
      have hnone : ∀ n : Nat,
          (Text.quotedWith plain (unprinted :: List.replicate n unprinted)).count unprinted = 0 :=
        fun n => List.count_eq_zero.2 (notMem_quotedWith (hplain _ (by decide)) (n + 1))
      exact exists_bound_formatted (k := 0)
        (fun g _ n => Nat.le_trans (count_limited_le g _ _) (Nat.le_of_eq (hnone n)))
        fun _ n => Nat.le_of_eq (hnone n)
  · -- what is shown does not depend on the repetitions
    refine ⟨((f.shown [unprinted]).toOption.getD []).count unprinted, fun n out hout => ?_⟩
    rw [Field.shown, hfirst, ← hfirst unprinted [], ← Field.shown] at hout
    rw [hout]
    exact Nat.le_refl _

end

/-! ## Templates that show their targets -/

section
variable {ps : List TemplatePiece} {target out : List Char}

theorem field_mem_char {f : Field} {c : Char} : .field f ∈ .char c :: ps ↔ .field f ∈ ps := by
  simp

theorem field_mem_field {f f' : Field} :
    .field f ∈ .field f' :: ps ↔ f = f' ∨ .field f ∈ ps := by
  simp

theorem shown_of_fillPieces (h : fillPieces target ps = .ok out) :
    ∀ f, .field f ∈ ps → ∃ shown, f.shown target = .ok shown := by
  induction ps generalizing out with
  | nil => exact fun f hf => absurd hf List.not_mem_nil
  | cons p ps ih =>
    intro f hf
    cases p with
    | char c =>
      obtain ⟨more, hmore, -⟩ := map_eq_ok h
      exact ih hmore f (field_mem_char.1 hf)
    | field f' =>
      obtain ⟨shown, hshown, h⟩ := bind_eq_ok h
      obtain ⟨more, hmore, -⟩ := map_eq_ok h
      rcases field_mem_field.1 hf with rfl | hf
      · exact ⟨shown, hshown⟩
      · exact ih hmore f hf

theorem fillPieces_of_shown (h : ∀ f, .field f ∈ ps → ∃ shown, f.shown target = .ok shown) :
    ∃ out, fillPieces target ps = .ok out ∧
      ∀ f, .field f ∈ ps → ∀ shown, f.shown target = .ok shown → shown <:+: out := by
  induction ps with
  | nil => exact ⟨[], rfl, fun f hf => absurd hf List.not_mem_nil⟩
  | cons p ps ih =>
    obtain ⟨more, hmore, hwithin⟩ := ih fun f hf => h f (List.mem_cons_of_mem p hf)
    cases p with
    | char c =>
      refine ⟨c :: more, by rw [fillPieces, hmore]; rfl, fun f hf shown hshown => ?_⟩
      exact List.infix_cons (hwithin f (field_mem_char.1 hf) shown hshown)
    | field f' =>
      obtain ⟨first, hfirst⟩ := h f' List.mem_cons_self
      refine ⟨first ++ more, by rw [fillPieces, hfirst, hmore]; rfl, fun f hf shown hshown => ?_⟩
      rcases field_mem_field.1 hf with rfl | hf
      · obtain rfl := Except.ok.inj (hfirst.symm.trans hshown)
        exact (List.prefix_append _ _).isInfix
      · exact (hwithin f hf shown hshown).trans (List.suffix_append _ _).isInfix

/-- If no field shows the whole target, of a repeated character no more than so many are shown. -/
theorem exists_bound_fillPieces (hflat : Flat ps)
    (h : ∀ f, .field f ∈ ps → ∃ shown, f.shown ['x'] = .ok shown)
    (hwhole : ∀ f, .field f ∈ ps → ¬f.Whole) :
    ∃ bound, ∀ n out, fillPieces (unprinted :: List.replicate n unprinted) ps = .ok out →
      out.count unprinted ≤ bound := by
  induction ps with
  | nil =>
    refine ⟨0, fun n out h => ?_⟩
    cases h
    exact Nat.le_refl _
  | cons p ps ih =>
    obtain ⟨bound, hbound⟩ := ih hflat.tail (fun f hf => h f (List.mem_cons_of_mem p hf))
      fun f hf => hwhole f (List.mem_cons_of_mem p hf)
    cases p with
    | char c =>
      refine ⟨bound + 1, fun n out h => ?_⟩
      obtain ⟨more, hmore, rfl⟩ := map_eq_ok h
      have hcount := hbound n more hmore
      rw [List.count_cons]
      split <;> omega
    | field f =>
      obtain ⟨shown, hshown⟩ := h f List.mem_cons_self
      obtain ⟨bound', hbound'⟩ := Field.exists_bound (hflat.name f List.mem_cons_self) hshown
        (hwhole f List.mem_cons_self)
      refine ⟨bound' + bound, fun n out h => ?_⟩
      obtain ⟨first, hfirst, h⟩ := bind_eq_ok h
      obtain ⟨more, hmore, rfl⟩ := map_eq_ok h
      have hcount := hbound n more hmore
      have hcount' := hbound' n first hfirst
      rw [List.count_append]
      omega

/-- Pieces that show a repeated character however often it is repeated have a field that shows the
whole target. -/
theorem exists_whole (hflat : Flat ps)
    (h : ∀ f, .field f ∈ ps → ∃ shown, f.shown ['x'] = .ok shown)
    (hall : ∀ n, ∃ out, fillPieces (unprinted :: List.replicate n unprinted) ps = .ok out ∧
      unprinted :: List.replicate n unprinted <:+: out) : ∃ f, .field f ∈ ps ∧ f.Whole := by
  refine Classical.byContradiction fun hnone => ?_
  obtain ⟨bound, hbound⟩ := exists_bound_fillPieces hflat h fun f hf hwhole => hnone ⟨f, hf, hwhole⟩
  obtain ⟨out, hout, hwithin⟩ := hall bound
  have hcount := hwithin.sublist.count_le unprinted
  have hle := hbound bound out hout
  rw [List.count_cons_self, List.count_replicate_self] at hcount
  omega

end

theorem fill_eq {template : String} {ps : List TemplatePiece} (hreads : Reads template.toList ps)
    (hflat : Flat ps) (target : String) :
    fill template target = (fillPieces target.toList ps).map String.ofList := by
  rw [fill, fillWithin_eq hreads hflat (Nat.le_of_eq String.length_toList)]

/-- A flat template can be filled in with every target, and then shows it, exactly if it can be read,
each of its fields can be shown for one character, and one of them shows the whole target. -/
theorem shows_iff {template : String} (hflat : ∀ ps, Reads template.toList ps → Flat ps) :
    (∀ target, target ≠ "" →
        ∃ out, fill template target = .ok out ∧ target.toList <:+: out.toList) ↔
      ∃ ps, Reads template.toList ps ∧
        (∀ f, .field f ∈ ps → ∃ shown, f.shown ['x'] = .ok shown) ∧
        ∃ f, .field f ∈ ps ∧ f.Whole := by
  constructor
  · intro hall
    obtain ⟨out, hout, -⟩ := hall "x" (by decide)
    obtain ⟨_, hwithin, -⟩ := map_eq_ok hout
    obtain ⟨ps, hreads⟩ := reads_of_fillWithin hwithin
    rw [fill_eq hreads (hflat ps hreads)] at hout
    obtain ⟨_, hpieces, -⟩ := map_eq_ok hout
    have hfields := shown_of_fillPieces hpieces
    refine ⟨ps, hreads, hfields, exists_whole (hflat ps hreads) hfields fun n => ?_⟩
    obtain ⟨out, hout, hwithin⟩ := hall (String.ofList (unprinted :: List.replicate n unprinted))
      (by simp)
    rw [fill_eq hreads (hflat ps hreads), String.toList_ofList] at hout
    obtain ⟨chars, hchars, rfl⟩ := map_eq_ok hout
    rw [String.toList_ofList, String.toList_ofList] at hwithin
    exact ⟨chars, hchars, hwithin⟩
  · rintro ⟨ps, hreads, hfields, f, hf, hwhole⟩ target hne
    obtain ⟨c, t, hcons⟩ := List.exists_cons_of_ne_nil fun h => hne (String.toList_eq_nil_iff.1 h)
    have hshown : ∀ f, .field f ∈ ps → ∃ shown, f.shown target.toList = .ok shown := by
      intro f hf
      obtain ⟨shown, hshown⟩ := hfields f hf
      rw [hcons]
      exact Field.shown_of_single ((hflat ps hreads).name f hf) hshown c t
    obtain ⟨out, hout, hwithin⟩ := fillPieces_of_shown hshown
    obtain ⟨shown, hfield⟩ := hshown f hf
    refine ⟨String.ofList out, by rw [fill_eq hreads (hflat ps hreads), hout]; rfl, ?_⟩
    rw [String.toList_ofList]
    exact (Field.infix_of_whole hwhole hfield).trans (hwithin f hf shown hfield)

end RouteDocs.Html.LinkTemplate
