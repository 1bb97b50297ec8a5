import RouteDocs.Config
import RouteDocs.Html.Marker
import RouteDocs.Proofs.Html.Escape
import RouteDocs.Proofs.Html.Replacement

/-!
# Labels in one pass

Markers are replaced one after the other, each in what the ones before it have
left. Where the marker words are made of capitals and keep apart, a pass finds
the words of the text itself and no others: none in an entity, in the markup of
a label or across its edge. All passes together then come to a single one, which
cuts the text into marker words and other characters.

Results:
* `marked_marker`, `marked_char`, `marked_append`: the pieces of a text, from its head on.
* `eq_append_of_markedHtml`: plain characters at the head of the page text are those of
  the text.
* `markAll_escapeChars`: the passes over escaped text write the pieces of the text.
-/
namespace RouteDocs.Html

/-! ## Pieces of a text -/

/-- A piece of a text: a character, or a marker word with the class of its label. -/
inductive MarkedPiece where
  | char (c : Char)
  | label (word cssClass : String)

def labelOpening (cssClass : String) : List Char :=
  ("<span class=\"label " ++ cssClass ++ "\">").toList

theorem labelOpening_eq (cssClass : String) :
    labelOpening cssClass = "<span class=\"label ".toList ++ (cssClass.toList ++ "\">".toList) := by
  rw [labelOpening, String.toList_append, String.toList_append, List.append_assoc]

theorem labelTemplate_eq (word cssClass : String) :
    labelTemplate word cssClass =
      labelOpening cssClass ++ (word.toList ++ "</span>".toList) := by
  rw [labelTemplate, String.toList_append, String.toList_append, List.append_assoc, labelOpening]

namespace MarkedPiece

/-- A piece as it stands in a page. -/
def html : MarkedPiece → List Char
  | char c => escapeChar true c
  | label word cssClass => labelTemplate word cssClass

/-- What a reader sees of a piece. -/
def shown : MarkedPiece → List Char
  | char c => [c]
  | label word _ => word.toList

end MarkedPiece

/-- The first of the markers whose word is at the head of a text. -/
def markerAt? (markers : List (String × String)) (s : List Char) : Option (String × String) :=
  markers.find? fun m => m.1.toList.isPrefixOf s

/-- A text without the colon at its head. -/
def dropColon : List Char → List Char
  | [] => []
  | c :: rest => if c = ':' then rest else c :: rest

/-- The pieces of a text; the first `skip` characters belong to the word before. A colon after a
marker word goes with it. -/
def markedFrom (markers : List (String × String)) : Nat → List Char → List MarkedPiece
  | _, [] => []
  | skip + 1, _ :: rest => markedFrom markers skip rest
  | 0, c :: rest =>
    match markerAt? markers (c :: rest) with
    | some (word, cssClass) =>
      let after := dropColon (rest.drop (word.toList.length - 1))
      .label word cssClass :: markedFrom markers (rest.length - after.length) rest
    | none => .char c :: markedFrom markers 0 rest

def marked (markers : List (String × String)) (s : List Char) : List MarkedPiece :=
  markedFrom markers 0 s

/-- A text as it stands in a page, its marker words as labels. -/
def markedHtml (markers : List (String × String)) (s : List Char) : List Char :=
  (marked markers s).flatMap MarkedPiece.html

/-- What a reader sees of a text: all of it but the colons after marker words. -/
def shownText (markers : List (String × String)) (s : List Char) : List Char :=
  (marked markers s).flatMap MarkedPiece.shown

/-! ## Words that keep apart -/

/-- A word starts nowhere inside a text, whatever follows the text: no end of the text is the head
of the word or has the word at its head. -/
def Apart (u w : List Char) : Prop :=
  ∀ n < u.length, ¬ u.drop n <+: w ∧ ¬ w <+: u.drop n

instance (u w : List Char) : Decidable (Apart u w) :=
  inferInstanceAs (Decidable (∀ n < u.length, ¬ u.drop n <+: w ∧ ¬ w <+: u.drop n))

def Capital (w : List Char) : Prop :=
  w ≠ [] ∧ ∀ c ∈ w, c.isUpper = true

instance (w : List Char) : Decidable (Capital w) :=
  inferInstanceAs (Decidable (w ≠ [] ∧ ∀ c ∈ w, c.isUpper = true))

theorem Apart.not_start {u w : List Char} (h : Apart u w) {n : Nat} (hn : n < u.length)
    (t : List Char) : ¬ w <+: u.drop n ++ t := by
  intro hp
  rcases List.prefix_or_prefix_of_prefix hp (List.prefix_append (u.drop n) t) with hw | hu
  · exact (h n hn).2 hw
  · exact (h n hn).1 hu

theorem notMem_special_of_isUpper {c : Char} (h : c.isUpper = true) : c ∉ special := by
  intro hc
  have hall : ∀ x ∈ special, x.isUpper = false := by decide
  rw [hall c hc] at h
  cases h

/-- A word of capitals starts nowhere in a text without capitals. -/
theorem apart_of_noCapital {u w : List Char} (hw : Capital w) (hu : ∀ c ∈ u, c.isUpper = false) :
    Apart u w := by
  obtain ⟨hne, hcap⟩ := hw
  intro n hn
  obtain ⟨c, v, hdrop⟩ := List.exists_cons_of_ne_nil (List.ne_nil_of_length_pos (l := u.drop n)
    (by rw [List.length_drop]; omega))
  obtain ⟨d, x, rfl⟩ := List.exists_cons_of_ne_nil hne
  have hc : c.isUpper = false := hu c (List.mem_of_mem_drop (hdrop ▸ List.mem_cons_self))
  have hd : d.isUpper = true := hcap d List.mem_cons_self
  have hcd : c ≠ d := by
    rintro rfl
    rw [hc] at hd
    cases hd
  rw [hdrop, List.cons_prefix_cons, List.cons_prefix_cons]
  exact ⟨fun h => hcd h.1, fun h => hcd h.1.symm⟩

/-- A word of capitals that starts a text does so before the first other character. -/
theorem prefix_of_prefix_append {w u t : List Char} {x : Char} (hw : Capital w)
    (hx : x.isUpper = false) (h : w <+: u ++ x :: t) : w <+: u := by
  rcases List.prefix_or_prefix_of_prefix h (List.prefix_append u (x :: t)) with hp | ⟨v, rfl⟩
  · exact hp
  · -- the word would go on with the other character
    rw [List.prefix_append_right_inj] at h
    cases v with
    | nil => simp
    | cons d v =>
      have hd := hw.2 d (by simp)
      rw [(List.cons_prefix_cons.1 h).1, hx] at hd
      cases hd

/-- Markers that can be found in one pass: their words are made of capitals and keep apart, and
their classes of small letters and hyphens. -/
structure Orderly (markers : List (String × String)) : Prop where
  capital : ∀ m ∈ markers, Capital m.1.toList
  plainClass : ∀ m ∈ markers, ∀ c ∈ m.2.toList, c.isLower = true ∨ c = '-'
  apart : markers.Pairwise fun m n =>
    Apart m.1.toList n.1.toList ∧ Apart n.1.toList m.1.toList

theorem orderly_default : Orderly RenderConfig.default.markers :=
  ⟨by decide, by decide, by decide⟩

theorem isUpper_of_plainClass {c : Char} (h : c.isLower = true ∨ c = '-') : c.isUpper = false := by
  rcases h with h | rfl
  · unfold Char.isLower at h
    unfold Char.isUpper
    simp only [Bool.and_eq_true, decide_eq_true_eq, decide_eq_false_iff_not, ge_iff_le,
      UInt32.le_iff_toNat_le] at h ⊢
    have hsmall : 'a'.val.toNat ≤ c.val.toNat := h.1
    have hlast : 'Z'.val.toNat < 'a'.val.toNat := by decide
    omega
  · decide

theorem noCapital_labelOpening {cssClass : String}
    (hclass : ∀ c ∈ cssClass.toList, c.isLower = true ∨ c = '-') :
    ∀ c ∈ labelOpening cssClass, c.isUpper = false := by
  intro c hc
  rw [labelOpening_eq, List.mem_append, List.mem_append] at hc
  rcases hc with hc | hc | hc
  · revert c
    decide
  · exact isUpper_of_plainClass (hclass c hc)
  · revert c
    decide

theorem noCapital_escapeChar {c : Char} (hc : c ∈ special) :
    ∀ x ∈ escapeChar true c, x.isUpper = false := by
  have hall : ∀ c ∈ special, ∀ x ∈ escapeChar true c, x.isUpper = false := by decide
  exact hall c hc

/-! ## The pieces from the head on -/

section
variable {markers : List (String × String)}

theorem dropColon_suffix (s : List Char) : dropColon s <:+ s := by
  cases s with
  | nil => exact List.suffix_refl _
  | cons c rest =>
    by_cases hc : c = ':'
    · rw [dropColon, if_pos hc]
      exact List.suffix_cons c rest
    · simpa only [dropColon, if_neg hc] using List.suffix_refl (c :: rest)

theorem markedFrom_eq_drop (skip : Nat) (s : List Char) :
    markedFrom markers skip s = marked markers (s.drop skip) := by
  induction skip generalizing s with
  | zero => rfl
  | succ skip ih =>
    cases s with
    | nil => rfl
    | cons c rest => exact ih rest

theorem markerAt?_eq_some {s : List Char} {m : String × String}
    (h : markerAt? markers s = some m) : m ∈ markers ∧ m.1.toList <+: s := by
  rw [markerAt?] at h
  have hhead := List.find?_some h
  exact ⟨List.mem_of_find?_eq_some h, List.isPrefixOf_iff_prefix.1 hhead⟩

theorem markerAt?_eq_none_iff {s : List Char} :
    markerAt? markers s = none ↔ ∀ m ∈ markers, ¬ m.1.toList <+: s := by
  simp [markerAt?, List.find?_eq_none, List.isPrefixOf_iff_prefix]

theorem marked_nil : marked markers [] = [] := by
  rw [marked, markedFrom]

theorem marked_char {c : Char} {rest : List Char} (h : markerAt? markers (c :: rest) = none) :
    marked markers (c :: rest) = .char c :: marked markers rest := by
  rw [marked, markedFrom, h]
  rfl

theorem marked_marker {word cssClass : String} {tail : List Char} (hne : word.toList ≠ [])
    (h : markerAt? markers (word.toList ++ tail) = some (word, cssClass)) :
    marked markers (word.toList ++ tail) =
      .label word cssClass :: marked markers (dropColon tail) := by
  obtain ⟨c, w, hw⟩ := List.exists_cons_of_ne_nil hne
  rw [hw, List.cons_append] at h ⊢
  rw [marked, markedFrom, h]
  have hdrop : (w ++ tail).drop (word.toList.length - 1) = tail := by simp [hw]
  have hsuffix : dropColon tail <:+ w ++ tail :=
    (dropColon_suffix tail).trans (List.suffix_append w tail)
  simp only [hdrop, markedFrom_eq_drop, ← List.suffix_iff_eq_drop.1 hsuffix]

theorem length_dropColon_lt {word : List Char} (hne : word ≠ []) (tail : List Char) :
    (dropColon tail).length < (word ++ tail).length := by
  have htail := (dropColon_suffix tail).length_le
  have hword := List.length_pos_iff.2 hne
  rw [List.length_append]
  omega

/-- Induction along the pieces of a text. -/
@[elab_as_elim]
theorem marked_induction {motive : List Char → Prop} (hne : ∀ m ∈ markers, m.1.toList ≠ [])
    (nil : motive [])
    (label : ∀ m tail, m ∈ markers → markerAt? markers (m.1.toList ++ tail) = some m →
      motive (dropColon tail) → motive (m.1.toList ++ tail))
    (char : ∀ c rest, markerAt? markers (c :: rest) = none → motive rest → motive (c :: rest))
    (s : List Char) : motive s :=
  match s with
  | [] => nil
  | c :: rest => by
    cases hat : markerAt? markers (c :: rest) with
    | some m =>
      obtain ⟨hmem, tail, htail⟩ := markerAt?_eq_some hat
      have hshort := length_dropColon_lt (hne m hmem) tail
      rw [← htail] at hat ⊢
      exact label m tail hmem hat (marked_induction hne nil label char (dropColon tail))
    | none => exact char c rest hat (marked_induction hne nil label char rest)
termination_by s.length
decreasing_by
  all_goals simp_all

/-- Where no marker word starts, the characters are pieces. -/
theorem marked_append {u t : List Char}
    (h : ∀ n < u.length, markerAt? markers (u.drop n ++ t) = none) :
    marked markers (u ++ t) = u.map .char ++ marked markers t := by
  induction u with
  | nil => rfl
  | cons c u ih =>
    have hhead : markerAt? markers (c :: (u ++ t)) = none := h 0 (Nat.zero_lt_succ _)
    have htail := ih fun n hn => h (n + 1) (Nat.succ_lt_succ hn)
    rw [List.cons_append, marked_char hhead, htail]
    rfl

theorem markerAt?_drop_append {u : List Char} (h : ∀ m ∈ markers, Apart u m.1.toList) {n : Nat}
    (hn : n < u.length) (t : List Char) : markerAt? markers (u.drop n ++ t) = none :=
  markerAt?_eq_none_iff.2 fun m hm => (h m hm).not_start hn t

/-! ## Page text from the head on -/

theorem markedHtml_char {c : Char} {rest : List Char} (h : markerAt? markers (c :: rest) = none) :
    markedHtml markers (c :: rest) = escapeChar true c ++ markedHtml markers rest := by
  rw [markedHtml, marked_char h, List.flatMap_cons]
  rfl

theorem markedHtml_marker {word cssClass : String} {tail : List Char} (hne : word.toList ≠ [])
    (h : markerAt? markers (word.toList ++ tail) = some (word, cssClass)) :
    markedHtml markers (word.toList ++ tail) =
      labelTemplate word cssClass ++ markedHtml markers (dropColon tail) := by
  rw [markedHtml, marked_marker hne h, List.flatMap_cons]
  rfl

theorem markedHtml_append {u t : List Char}
    (h : ∀ n < u.length, markerAt? markers (u.drop n ++ t) = none) :
    markedHtml markers (u ++ t) = escapeChars true u ++ markedHtml markers t := by
  rw [markedHtml, marked_append h, List.flatMap_append, List.flatMap_map]
  rfl

/-- Plain characters at the head of the page text are the first of the text. -/
theorem eq_append_of_markedHtml (hm : Orderly markers) {p s t : List Char}
    (hp : ∀ c ∈ p, c ∉ special) (h : markedHtml markers s = p ++ t) :
    ∃ tail, s = p ++ tail ∧ markedHtml markers tail = t := by
  induction p generalizing s with
  | nil => exact ⟨s, rfl, h⟩
  | cons c p ih =>
    have hc := hp c List.mem_cons_self
    cases s with
    | nil => cases h
    | cons d rest =>
      cases hat : markerAt? markers (d :: rest) with
      | some m =>
        obtain ⟨hmem, tail, htail⟩ := markerAt?_eq_some hat
        rw [← htail] at h hat
        rw [markedHtml_marker (hm.capital m hmem).1 hat, labelTemplate_eq, labelOpening_eq] at h
        obtain rfl : '<' = c := (List.cons.inj h).1
        exact absurd hc (by decide)
      | none =>
        rw [markedHtml_char hat] at h
        by_cases hd : d ∈ special
        · obtain ⟨name, heq, -, -⟩ := escapeChar_of_mem hd
          rw [heq] at h
          obtain rfl : '&' = c := (List.cons.inj h).1
          exact absurd hc (by decide)
        · rw [escapeChar_of_notMem hd, List.singleton_append, List.cons_append,
            List.cons.injEq] at h
          obtain ⟨rfl, h⟩ := h
          obtain ⟨tail, rfl, ht⟩ := ih (fun x hx => hp x (List.mem_cons_of_mem _ hx)) h
          exact ⟨tail, rfl, ht⟩

end

/-! ## One pass for one word -/

section
variable {word : List Char} {ps : List ReplacementPart}

theorem markWord_eq_drop (skip : Nat) (s : List Char) :
    markWord word ps skip s = markWord word ps 0 (s.drop skip) := by
  induction skip generalizing s with
  | zero => rfl
  | succ skip ih =>
    cases s with
    | nil => simp [markWord]
    | cons c rest => exact ih rest

theorem markWord_char {c : Char} {rest : List Char} (h : ¬ word <+: c :: rest) :
    markWord word ps 0 (c :: rest) = c :: markWord word ps 0 rest := by
  rw [markWord, if_neg (by rwa [List.isPrefixOf_iff_prefix])]

theorem markWord_append {u : List Char} (h : Apart u word) (t : List Char) :
    markWord word ps 0 (u ++ t) = u ++ markWord word ps 0 t := by
  induction u with
  | nil => rfl
  | cons c u ih =>
    have hhead : ¬ word <+: c :: (u ++ t) := h.not_start (Nat.zero_lt_succ _) t
    have htail : Apart u word := fun n hn => h (n + 1) (Nat.succ_lt_succ hn)
    rw [List.cons_append, markWord_char hhead, ih htail]
    rfl

theorem markWord_word (hne : word ≠ []) (lab tail : List Char) :
    markWord word (lab.map .char) 0 (word ++ tail) =
      lab ++ markWord word (lab.map .char) 0 (dropColon tail) := by
  obtain ⟨c, w, rfl⟩ := List.exists_cons_of_ne_nil hne
  rw [List.cons_append, markWord, if_pos (by simp [List.isPrefixOf_iff_prefix])]
  have hdrop : (c :: (w ++ tail)).drop (c :: w).length = tail := by simp
  simp only [hdrop, List.cons_append, Replacement.fill_chars]
  rw [markWord_eq_drop]
  congr 2
  cases tail with
  | nil => simp [dropColon]
  | cons d tail =>
    by_cases hd : d = ':'
    · simp [dropColon, hd]
    · simp [dropColon, hd]

end

/-! ## All passes -/

section
variable {markers : List (String × String)} {word cssClass : String}

/-- A word of capitals at the head of the page text is one of the text. -/
theorem prefix_of_prefix_markedHtml (hm : Orderly markers) {w s : List Char} (hw : Capital w)
    (h : w <+: markedHtml markers s) : w <+: s := by
  obtain ⟨t, ht⟩ := h
  have hplain : ∀ c ∈ w, c ∉ special := fun c hc => notMem_special_of_isUpper (hw.2 c hc)
  obtain ⟨tail, rfl, -⟩ := eq_append_of_markedHtml hm hplain ht.symm
  exact List.prefix_append w tail

theorem apart_escapeChar (hw : Capital word.toList) {c : Char} (hc : c ∈ special) :
    Apart (escapeChar true c) word.toList :=
  apart_of_noCapital hw (noCapital_escapeChar hc)

/-- The colon after a word is the one in the page text. -/
theorem dropColon_markedHtml (hm : Orderly markers) (s : List Char) :
    dropColon (markedHtml markers s) = markedHtml markers (dropColon s) := by
  cases s with
  | nil => rfl
  | cons c rest =>
    by_cases hc : c = ':'
    · subst hc
      have hat : markerAt? markers (':' :: rest) = none := by
        refine markerAt?_eq_none_iff.2 fun m hmem hp => ?_
        have := prefix_of_prefix_append (u := []) (hm.capital m hmem) (by decide) hp
        exact (hm.capital m hmem).1 (List.prefix_nil.1 this)
      rw [markedHtml_char hat]
      rfl
    · have hright : dropColon (c :: rest) = c :: rest := if_neg hc
      rw [hright]
      cases hX : markedHtml markers (c :: rest) with
      | nil => rfl
      | cons d X =>
        refine if_neg ?_
        rintro rfl
        obtain ⟨tail, heq, -⟩ := eq_append_of_markedHtml (p := [':']) hm (by decide) hX
        exact hc (List.cons.inj heq).1

/-- A pass finds nothing in the label of another word. -/
theorem markWord_label {m : String × String} {ps : List ReplacementPart}
    (hw : Capital word.toList) (hclass : ∀ c ∈ m.2.toList, c.isLower = true ∨ c = '-')
    (hapart : Apart m.1.toList word.toList) (t : List Char) :
    markWord word.toList ps 0 (labelTemplate m.1 m.2 ++ t) =
      labelTemplate m.1 m.2 ++ markWord word.toList ps 0 t := by
  have hopening : Apart (labelOpening m.2) word.toList :=
    apart_of_noCapital hw (noCapital_labelOpening hclass)
  have hclosing : Apart "</span>".toList word.toList := apart_of_noCapital hw (by decide)
  rw [labelTemplate_eq, List.append_assoc, List.append_assoc, markWord_append hopening,
    markWord_append hapart, markWord_append hclosing, List.append_assoc, List.append_assoc]

/-- A pass leaves a character that does not begin the word. -/
theorem markWord_markedHtml_char (hm : Orderly markers) (hw : Capital word.toList)
    {ps : List ReplacementPart} {c : Char} {rest : List Char}
    (hbefore : markerAt? markers (c :: rest) = none) (hword : ¬ word.toList <+: c :: rest) :
    markWord word.toList ps 0 (markedHtml markers (c :: rest)) =
      escapeChar true c ++ markWord word.toList ps 0 (markedHtml markers rest) := by
  rw [markedHtml_char hbefore]
  by_cases hc : c ∈ special
  · exact markWord_append (apart_escapeChar hw hc) _
  · rw [escapeChar_of_notMem hc]
    refine markWord_char fun hp => hword (prefix_of_prefix_markedHtml hm hw ?_)
    rwa [markedHtml_char hbefore, escapeChar_of_notMem hc]

/-- A pass makes a label of the word, unless another marker's word is there. -/
theorem markWord_markedHtml_word (hm : Orderly markers) (hw : Capital word.toList)
    (hapart : ∀ m ∈ markers, Apart word.toList m.1.toList) (lab tail : List Char) :
    markWord word.toList (lab.map .char) 0 (markedHtml markers (word.toList ++ tail)) =
      lab ++ markWord word.toList (lab.map .char) 0 (markedHtml markers (dropColon tail)) := by
  have hplain : escapeChars true word.toList = word.toList :=
    escapeChars_of_plain fun x hx => notMem_special_of_isUpper (hw.2 x hx)
  have hinside : ∀ n < word.toList.length,
      markerAt? markers (word.toList.drop n ++ tail) = none :=
    fun n hn => markerAt?_drop_append hapart hn tail
  rw [markedHtml_append hinside, hplain, markWord_word hw.1, dropColon_markedHtml hm]

theorem markerAt?_concat (s : List Char) :
    markerAt? (markers ++ [(word, cssClass)]) s =
      (markerAt? markers s).or
        (if word.toList.isPrefixOf s then some (word, cssClass) else none) := by
  rw [markerAt?, List.find?_append, List.find?_singleton]
  rfl

theorem markWord_markedHtml (hm : Orderly markers) (hw : Capital word.toList)
    (hapart : ∀ m ∈ markers, Apart m.1.toList word.toList ∧ Apart word.toList m.1.toList)
    (s : List Char) :
    markWord word.toList ((labelTemplate word cssClass).map .char) 0 (markedHtml markers s) =
      markedHtml (markers ++ [(word, cssClass)]) s := by
  have hne : ∀ m ∈ markers ++ [(word, cssClass)], m.1.toList ≠ [] := by
    intro m hmem
    rcases List.mem_append.1 hmem with hmem | hmem
    · exact (hm.capital m hmem).1
    · rw [List.mem_singleton.1 hmem]
      exact hw.1
  induction s using marked_induction hne with
  | nil =>
    obtain ⟨c, w, hc⟩ := List.exists_cons_of_ne_nil hw.1
    simp [markedHtml, marked_nil, markWord, hc]
  | label m tail hmem hat ih =>
    rw [markedHtml_marker (hne m hmem) hat, ← ih]
    rw [markerAt?_concat] at hat
    cases hbefore : markerAt? markers (m.1.toList ++ tail) with
    | some m' =>
      rw [hbefore, Option.some_or, Option.some.injEq] at hat
      subst hat
      have hm' := (markerAt?_eq_some hbefore).1
      rw [markedHtml_marker (hne m' hmem) hbefore,
        markWord_label hw (hm.plainClass m' hm') (hapart m' hm').1]
    | none =>
      rw [hbefore, Option.none_or] at hat
      obtain rfl : (word, cssClass) = m := by
        split at hat
        · exact Option.some.inj hat
        · cases hat
      exact markWord_markedHtml_word hm hw (fun m hmem => (hapart m hmem).2) _ tail
  | char c rest hat ih =>
    rw [markedHtml_char hat, ← ih]
    rw [markerAt?_concat, Option.or_eq_none_iff] at hat
    refine markWord_markedHtml_char hm hw hat.1 fun hp => ?_
    have hword := hat.2
    rw [if_pos (List.isPrefixOf_iff_prefix.2 hp)] at hword
    cases hword

theorem parts_labelTemplate (hw : Capital word.toList)
    (hclass : ∀ c ∈ cssClass.toList, c.isLower = true ∨ c = '-') :
    Replacement.parts (labelTemplate word cssClass) =
      .ok ((labelTemplate word cssClass).map .char) := by
  refine Replacement.parts_of_plain fun hmem => ?_
  rw [labelTemplate_eq, labelOpening_eq, List.mem_append, List.mem_append, List.mem_append,
    List.mem_append] at hmem
  rcases hmem with (hmem | hmem | hmem) | hmem | hmem
  · exact absurd hmem (by decide)
  · exact absurd (hclass _ hmem) (by decide)
  · exact absurd hmem (by decide)
  · exact absurd (hw.2 _ hmem) (by decide)
  · exact absurd hmem (by decide)

/-- Orderly markers, replaced one after the other in what is marked so far, are found in one pass
over the text. -/
theorem markAll_markedHtml {done rest : List (String × String)} (h : Orderly (done ++ rest))
    (s : List Char) : markAll rest (markedHtml done s) = .ok (markedHtml (done ++ rest) s) := by
  induction rest generalizing done with
  | nil => rw [markAll, List.append_nil]
  | cons m rest ih =>
    obtain ⟨word, cssClass⟩ := m
    have hmem : (word, cssClass) ∈ done ++ (word, cssClass) :: rest := by simp
    have hw := h.capital _ hmem
    obtain ⟨hdone, -, hcross⟩ := List.pairwise_append.1 h.apart
    have hbefore : Orderly done := by
      refine ⟨fun m hm => h.capital m ?_, fun m hm => h.plainClass m ?_, hdone⟩
      · exact List.mem_append_left _ hm
      · exact List.mem_append_left _ hm
    have hapart := fun m hm => hcross m hm (word, cssClass) List.mem_cons_self
    have hnext : done ++ (word, cssClass) :: rest = done ++ [(word, cssClass)] ++ rest := by simp
    rw [markAll, parts_labelTemplate hw (h.plainClass _ hmem)]
    simp only [markWord_markedHtml hbefore hw hapart]
    rw [hnext] at h ⊢
    exact ih h

theorem markedHtml_of_noMarkers (s : List Char) : markedHtml [] s = escapeChars true s := by
  induction s with
  | nil => rfl
  | cons c rest ih =>
    rw [markedHtml_char rfl, ih]
    rfl

theorem markAll_escapeChars (h : Orderly markers) (s : List Char) :
    markAll markers (escapeChars true s) = .ok (markedHtml markers s) := by
  have hnone : Orderly ([] ++ markers) := h
  have hall := markAll_markedHtml hnone s
  rwa [markedHtml_of_noMarkers] at hall

end
end RouteDocs.Html
