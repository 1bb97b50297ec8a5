import RouteDocs.Config.Reader
import RouteDocs.Html.PlainHighlighter
import RouteDocs.Proofs.Html.Label
import RouteDocs.Proofs.Html.Layout
import RouteDocs.Proofs.Html.PageTree
import RouteDocs.Proofs.Html.Visible

/-!
# Configured texts in a page

Marker words, their classes and the language of code are put into replacement
templates as they are configured. A template is refused if a backslash in it begins
no escape, and an escape comes to another text than the one that is configured. Only
texts in which every backslash stands for itself are shown as they are configured.

Results:
* `text_ok_iff`: texts are shown exactly if the template of every label can be read.
* `showsCode_iff`: code is shown exactly if texts are or, with a language, if the template of
  the block can be read.
* `literal_of_read`: what is read of a language is no longer than it, and as long only if the
  language is literal.
* `namesLanguage_iff`: the language is read back exactly if it is literal.
* `configured_shown_iff`: when configured texts are shown as they are configured.
-/
namespace RouteDocs.Html

open Replacement (IsTemplate Literal Spoken parts)

/-! ## Texts -/

theorem markAll_ok_iff {markers : List (String × String)} {s : List Char} :
    (∃ h, markAll markers s = .ok h) ↔ ∀ m ∈ markers, IsTemplate (labelTemplate m.1 m.2) := by
  induction markers generalizing s with
  | nil => exact iff_of_true ⟨s, rfl⟩ nofun
  | cons m rest ih =>
    rw [List.forall_mem_cons, Replacement.isTemplate_iff, markAll]
    cases hparts : parts (labelTemplate m.1 m.2) with
    | error f =>
      constructor
      · rintro ⟨h, ⟨⟩⟩
      · rintro ⟨⟨qs, ⟨⟩⟩, -⟩
    | ok ps => exact ih.trans (and_iff_right ⟨ps, rfl⟩).symm

namespace Renderer

variable {r : Renderer}

/-- A text is shown exactly if the template of every label can be read. -/
theorem text_ok_iff {s : String} :
    (∃ h, r.text s = .ok h) ↔
      ∀ m ∈ r.config.markers, IsTemplate (labelTemplate m.1 m.2) := by
  rw [← markAll_ok_iff (s := escapeChars true s.toList), text]
  cases markAll r.config.markers (escapeChars true s.toList) with
  | error f =>
    constructor
    · rintro ⟨h, ⟨⟩⟩
    · rintro ⟨h, ⟨⟩⟩
  | ok marked => exact iff_of_true ⟨_, rfl⟩ ⟨_, rfl⟩

def texts (r : Renderer) : List String → Except Fault String
  | [] => .ok ""
  | s :: rest => do
    let first ← r.text s
    let others ← r.texts rest
    return first ++ others

theorem renderAll_texts (trail : List String) (ss : List String) :
    r.renderAll trail (ss.map .text) = quiet (r.texts ss) := by
  induction ss with
  | nil =>
    rw [List.map_nil, renderAll]
    rfl
  | cons s rest ih =>
    rw [List.map_cons, renderAll, render, ih, texts, quiet_bind]
    congr 1
    funext first
    rw [quiet_bind]
    rfl

theorem texts_ok (h : ∀ s, ∃ h, r.text s = .ok h) (ss : List String) :
    ∃ h, r.texts ss = .ok h := by
  induction ss with
  | nil => exact ⟨"", rfl⟩
  | cons s rest ih =>
    obtain ⟨first, hfirst⟩ := h s
    obtain ⟨others, hothers⟩ := ih
    exact ⟨first ++ others, by rw [texts, hfirst, hothers]; rfl⟩

end Renderer

/-! ## Code -/

def codeElement (ss : List String) : Node :=
  .element Kind.verbatim.name [] (ss.map .text)

/-- The opening tag of a block of code, up to its language. -/
def languageLead : List Char := "<div class=\"codehilite\" data-language=\"".toList

namespace Renderer

variable {r : Renderer}

/-- Code is shown, whatever its text is. -/
def ShowsCode (r : Renderer) : Prop :=
  ∀ ss trail log, ∃ h log', r.render trail (codeElement ss) log = .ok h log'

def NamesLanguage (r : Renderer) (language : String) : Prop :=
  ∀ ss trail log, ∃ h log', r.render trail (codeElement ss) log = .ok h log' ∧
    quotedAfter? languageLead h.toList = some language.toList

theorem render_codeElement (h : r.config.verbatimLanguage.filter (· ≠ "") = none)
    (trail ss : List String) :
    r.render trail (codeElement ss) = wrap "pre" none [] (quiet (r.texts ss)) := by
  have hkind : Kind.ofName? Kind.verbatim.name = some .verbatim := Kind.ofName?_eq_some_iff.2 rfl
  rw [codeElement, render.eq_def]
  simp only [hkind, h, renderAll_texts]
  rfl

theorem render_codeElement_language {language : String}
    (h : r.config.verbatimLanguage.filter (· ≠ "") = some language) (trail ss : List String) :
    r.render trail (codeElement ss) =
      quiet (r.codeBlock language (Node.flattenAll (ss.map .text))) := by
  have hkind : Kind.ofName? Kind.verbatim.name = some .verbatim := Kind.ofName?_eq_some_iff.2 rfl
  rw [codeElement, render.eq_def]
  simp only [hkind, h]

theorem parts_of_codeBlock {language s html : String} (h : r.codeBlock language s = .ok html) :
    ∃ ps, parts (codeOpeningTemplate language).toList = .ok ps := by
  obtain ⟨ps, hps, -⟩ := bind_eq_ok h
  exact ⟨ps, hps⟩

/-- Code is shown exactly if texts are or, with a language, if the template of its block can be
read. -/
theorem showsCode_iff :
    r.ShowsCode ↔
      match r.config.verbatimLanguage.filter (· ≠ "") with
      | none => ∀ m ∈ r.config.markers, IsTemplate (labelTemplate m.1 m.2)
      | some language => IsTemplate (codeOpeningTemplate language).toList := by
  cases hlanguage : r.config.verbatimLanguage.filter (· ≠ "") with
  | none =>
    constructor
    · intro h
      obtain ⟨html, log', hshown⟩ := h [""] [] []
      rw [render_codeElement hlanguage, texts] at hshown
      cases htext : r.text "" with
      | ok first => exact text_ok_iff.1 ⟨first, htext⟩
      | error f =>
        rw [htext] at hshown
        cases hshown
    · intro h ss trail log
      obtain ⟨inner, hinner⟩ := texts_ok (fun s => text_ok_iff.2 h) ss
      exact ⟨_, log, by rw [render_codeElement hlanguage, hinner]; rfl⟩
  | some language =>
    dsimp only
    rw [Replacement.isTemplate_iff]
    constructor
    · intro h
      obtain ⟨html, log', hshown⟩ := h [] [] []
      rw [render_codeElement_language hlanguage] at hshown
      exact parts_of_codeBlock (quiet_ok hshown)
    · rintro ⟨ps, hps⟩ ss trail log
      exact ⟨_, log, by rw [render_codeElement_language hlanguage, codeBlock, hps]; rfl⟩

end Renderer

/-! ## The name of a language -/

theorem backslash_notMem_languageLead : '\\' ∉ languageLead := by
  decide

theorem codeOpeningTemplate_eq (language : String) :
    (Renderer.codeOpeningTemplate language).toList =
      languageLead ++ (escapeChars true language.toList ++ '"' :: ['>']) := by
  have happend : ∀ a b c : String, (a ++ b ++ c).toList = a.toList ++ (b.toList ++ c.toList) := by
    intro a b c
    rw [String.toList_append, String.toList_append, List.append_assoc]
  have hescape : (escape true language).toList = escapeChars true language.toList :=
    String.toList_ofList
  have hquote : "\">".toList = '"' :: ['>'] := by decide
  calc
    (Renderer.codeOpeningTemplate language).toList
      = languageLead ++ ((escape true language).toList ++ "\">".toList) := happend _ _ _
    _ = languageLead ++ (escapeChars true language.toList ++ "\">".toList) :=
      congrArg (fun e => languageLead ++ (e ++ "\">".toList)) hescape
    _ = languageLead ++ (escapeChars true language.toList ++ '"' :: ['>']) :=
      congrArg (fun q => languageLead ++ (escapeChars true language.toList ++ q)) hquote

/-- The first character of escaped text is an ASCII letter or digit, or a backslash, exactly if that
of the text is. -/
theorem head?_escapeChars {s : List Char} :
    (∀ d ∈ (escapeChars true s).head?, d.isAlphanum = false ∧ d ≠ '\\') ↔
      ∀ d ∈ s.head?, d.isAlphanum = false ∧ d ≠ '\\' := by
  cases s with
  | nil => rfl
  | cons c s =>
    rw [escapeChars, List.flatMap_cons]
    by_cases hc : c ∈ special
    · have hall : ∀ c ∈ special, c.isAlphanum = false ∧ c ≠ '\\' := by decide
      obtain ⟨name, heq, -, -⟩ := escapeChar_of_mem hc
      rw [heq]
      simp [hall c hc]
    · rw [escapeChar_of_notMem hc]
      simp

theorem literal_escapeChars {s : List Char} (h : Literal s) : Literal (escapeChars true s) := by
  induction s with
  | nil => trivial
  | cons c s ih =>
    obtain ⟨hc, hs⟩ := h
    rw [escapeChars, List.flatMap_cons]
    by_cases hspecial : c ∈ special
    · have hall : ∀ c ∈ special, '\\' ∉ escapeChar true c := by decide
      exact Replacement.literal_plain_append (hall c hspecial) (ih hs)
    · rw [escapeChar_of_notMem hspecial]
      exact ⟨fun hback => head?_escapeChars.2 (hc hback), ih hs⟩

theorem backslash_notMem_escapeChar {c : Char} (h : c ≠ '\\') : '\\' ∉ escapeChar true c := by
  intro hmem
  rcases mem_escapeChar hmem with ⟨heq, -⟩ | ⟨-, hname⟩
  · exact h heq.symm
  · exact absurd hname (by decide)

/-- A character more makes what is read one character longer at most. -/
theorem length_unescape_cons (c : Char) (s : List Char) :
    (unescape (c :: s)).length ≤ (unescape s).length + 1 := by
  generalize ht : c :: s = t
  fun_cases unescape t
  case case1 => cases ht
  case case7 =>
    cases ht
    exact Nat.le_refl _
  all_goals
    cases ht
    simp (disch := decide) only [unescape_char, List.length_cons]
    omega

/-- The same of what is read up to the first quote. -/
theorem length_unescape_takeWhile_cons (x : Char) (y : List Char) :
    (unescape ((x :: y).takeWhile (· ≠ '"'))).length ≤
      (unescape (y.takeWhile (· ≠ '"'))).length + 1 := by
  by_cases hx : x = '"'
  · rw [hx, List.takeWhile_cons_of_neg (by decide)]
    exact Nat.zero_le _
  · rw [List.takeWhile_cons_of_pos (by simpa using hx)]
    exact length_unescape_cons x _

theorem unescape_takeWhile_backslash (y : List Char) :
    unescape (('\\' :: y).takeWhile (· ≠ '"')) = '\\' :: unescape (y.takeWhile (· ≠ '"')) := by
  rw [List.takeWhile_cons_of_pos (by decide), unescape_char (by decide)]

/-- A character that is escaped is read back before what follows it. -/
theorem unescape_takeWhile_escapeChar (c : Char) (y : List Char) :
    unescape ((escapeChar true c ++ y).takeWhile (· ≠ '"')) =
      c :: unescape (y.takeWhile (· ≠ '"')) := by
  have hquote : ∀ x ∈ escapeChar true c, decide (x ≠ '"') = true := by
    intro x hx
    refine decide_eq_true ?_
    rintro rfl
    rcases mem_escapeChar hx with ⟨rfl, hplain⟩ | ⟨-, hname⟩
    · exact hplain (by decide)
    · exact absurd hname (by decide)
  rw [List.takeWhile_append_of_pos hquote, unescape_escapeChar]

theorem escapeChars_eq_nil {s : List Char} (h : escapeChars true s = []) : s = [] := by
  cases s with
  | nil => rfl
  | cons c s =>
    rw [escapeChars, List.flatMap_cons] at h
    exact absurd (List.append_eq_nil_iff.1 h).1 (escapeChar_ne_nil c)

theorem eq_append_of_escape {taken w l : List Char}
    (htaken : ∀ c ∈ taken, c.isAlphanum = true ∨ c = '\\')
    (h : escapeChars true l = taken ++ w) : ∃ l', l = taken ++ l' ∧ escapeChars true l' = w := by
  have hplain : ∀ c ∈ taken, c ∉ special := by
    intro c hc hspecial
    have hall : ∀ c ∈ special, c.isAlphanum = false ∧ c ≠ '\\' := by decide
    obtain ⟨halnum, hback⟩ := hall c hspecial
    rcases htaken c hc with h | h
    · rw [halnum] at h
      cases h
    · exact hback h
  rw [← markedHtml_of_noMarkers] at h
  obtain ⟨l', hl, hw⟩ := eq_append_of_markedHtml orderly_nil hplain h
  rw [markedHtml_of_noMarkers] at hw
  exact ⟨l', hl, hw⟩

/-- What is read of a language, up to the first quote, is no longer than the language, and as long
only if that is literal. -/
theorem literal_of_read {language y : List Char} (h : Spoken (escapeChars true language) y) :
    (unescape (y.takeWhile (· ≠ '"'))).length ≤ language.length ∧
      (language.length ≤ (unescape (y.takeWhile (· ≠ '"'))).length → Literal language) := by
  -- by length, since an escape takes several characters at once
  induction hlength : language.length using Nat.strongRecOn generalizing language y with | _ n ih
  subst hlength
  cases language with
  | nil =>
    cases h
    exact ⟨Nat.le_refl _, fun _ => trivial⟩
  | cons c l =>
    rw [escapeChars, List.flatMap_cons] at h
    by_cases hc : c = '\\'
    · subst hc
      generalize hs : escapeChar true '\\' ++ l.flatMap (escapeChar true) = s at h
      cases h with
      | nil => cases hs
      | char hback _ => exact absurd (List.cons.inj hs).1.symm hback
      | last =>
        obtain rfl : l = [] := escapeChars_eq_nil (List.cons.inj hs).2
        refine ⟨Nat.le_refl _, fun _ => ⟨fun _ d hd => ?_, trivial⟩⟩
        cases hd
      | @kept d w y hd hdback hy =>
        have hl : escapeChars true l = d :: w := (List.cons.inj hs).2
        have hspoken : Spoken (escapeChars true l) (d :: y) := hl ▸ .char hdback hy
        obtain ⟨hle, hliteral⟩ := ih _ (Nat.lt_succ_self _) hspoken rfl
        rw [unescape_takeWhile_backslash, List.length_cons, List.length_cons]
        refine ⟨Nat.succ_le_succ hle, fun h => ⟨fun _ => ?_, hliteral (Nat.le_of_succ_le_succ h)⟩⟩
        refine head?_escapeChars.1 fun e he => ?_
        rw [hl] at he
        cases he
        exact ⟨hd, hdback⟩
      | @escape taken w y hne htaken x hy =>
        -- the one character it comes to is read for the backslash and the characters taken
        obtain ⟨l', rfl, rfl⟩ := eq_append_of_escape htaken (List.cons.inj hs).2
        have hpos := List.length_pos_iff.2 hne
        have hshort : l'.length < ('\\' :: (taken ++ l')).length := by
          rw [List.length_cons, List.length_append]
          omega
        obtain ⟨hle, -⟩ := ih _ hshort hy rfl
        have hread := length_unescape_takeWhile_cons x y
        rw [List.length_cons, List.length_append]
        exact ⟨by omega, fun h => by omega⟩
    · obtain ⟨y, rfl, hy⟩ := h.of_plain_append (backslash_notMem_escapeChar hc)
      obtain ⟨hle, hliteral⟩ := ih _ (Nat.lt_succ_self _) hy rfl
      rw [unescape_takeWhile_escapeChar, List.length_cons, List.length_cons]
      exact ⟨Nat.succ_le_succ hle, fun h =>
        ⟨fun hback => absurd hback hc, hliteral (Nat.le_of_succ_le_succ h)⟩⟩

namespace Renderer

variable {r : Renderer}

theorem codeBlock_of_parts {language : String} {ps : List ReplacementPart}
    (h : parts (codeOpeningTemplate language).toList = .ok ps) (s : String) :
    ∃ rest, r.codeBlock language s =
      .ok (String.ofList (Replacement.fill codeOpening.toList ps ++ rest)) := by
  have hopening := r.highlighter.opening_highlight r.config.highlightStyle
    (r.highlighter.languageFor language) s
  exact ⟨_, by rw [codeBlock, h, ← Replacement.replaceFirst_of_prefix (by decide) hopening]; rfl⟩

/-- What is read of the language of a block of code: what its template has come to, up to the first
quote. -/
theorem quotedAfter?_codeBlock {language : String} {y : List Char}
    (h : parts (codeOpeningTemplate language).toList =
      .ok ((languageLead ++ (y ++ '"' :: ['>'])).map .char)) (s : String) :
    ∃ html, r.codeBlock language s = .ok html ∧
      quotedAfter? languageLead html.toList = some (unescape (y.takeWhile (· ≠ '"'))) := by
  obtain ⟨rest, hblock⟩ := codeBlock_of_parts (r := r) h s
  refine ⟨_, hblock, ?_⟩
  rw [Replacement.fill_chars, String.toList_ofList, List.append_assoc, List.append_assoc,
    List.cons_append, quotedAfter?_append]

/-- Code is shown with the name of its language exactly if that is literal. -/
theorem namesLanguage_iff {language : String}
    (h : r.config.verbatimLanguage.filter (· ≠ "") = some language) :
    r.NamesLanguage language ↔ Literal language.toList := by
  constructor
  · intro hnames
    obtain ⟨html, log', hshown, hread⟩ := hnames [] [] []
    rw [render_codeElement_language h] at hshown
    obtain ⟨ps, hps⟩ := parts_of_codeBlock (quiet_ok hshown)
    have hspoken := hps
    rw [codeOpeningTemplate_eq] at hspoken
    have hgroup : ∀ name t, '"' :: ['>'] = '<' :: (name ++ '>' :: t) →
        ∀ p, Replacement.group name ≠ .ok p :=
      fun name t heq => absurd (List.cons.inj heq).1 (by decide)
    obtain ⟨y, hy, rfl⟩ := Replacement.spoken_between backslash_notMem_languageLead (by decide)
      (by decide) (by decide) hgroup (notMem_escapeChars (by decide) (by decide) _) hspoken
    obtain ⟨html', hblock, hread'⟩ := quotedAfter?_codeBlock (r := r) hps (Node.flattenAll [])
    obtain rfl : html' = html := Except.ok.inj (hblock.symm.trans (quiet_ok hshown))
    rw [hread', Option.some.injEq] at hread
    exact (literal_of_read hy).2 (hread ▸ Nat.le_refl _)
  · intro hliteral ss trail log
    have hparts : parts (codeOpeningTemplate language).toList =
        .ok ((languageLead ++ (escapeChars true language.toList ++ '"' :: ['>'])).map .char) := by
      rw [codeOpeningTemplate_eq]
      exact Replacement.parts_between backslash_notMem_languageLead (by decide) (by decide)
        (by decide) (literal_escapeChars hliteral)
    obtain ⟨html, hblock, hread⟩ :=
      quotedAfter?_codeBlock (r := r) hparts (Node.flattenAll (ss.map .text))
    rw [unescape_takeWhile_escapeChars] at hread
    exact ⟨html, log, by rw [render_codeElement_language h, hblock]; rfl, hread⟩

/-! ## Configured texts -/

/-- When configured texts are shown as they are configured. Texts are shown exactly if the templates
of their labels can be read, and code exactly if its own can. With one marker word, every label
encloses exactly that word exactly if the word is literal and no reference starts in it; and code
has the name of its language exactly if that is literal. -/
theorem configured_shown_iff (r : Renderer) :
    ((∀ s, ∃ h, r.text s = .ok h) ↔
      ∀ m ∈ r.config.markers, IsTemplate (labelTemplate m.1 m.2)) ∧
    (r.ShowsCode ↔
      match r.config.verbatimLanguage.filter (· ≠ "") with
      | none => ∀ m ∈ r.config.markers, IsTemplate (labelTemplate m.1 m.2)
      | some language => IsTemplate (codeOpeningTemplate language).toList) ∧
    (∀ word cssClass, r.config.markers = [(word, cssClass)] → word ≠ "" →
      (∀ x ∈ word.toList, x ∉ special) → PlainSetting r.config cssClass →
        ((∀ s, ∃ h, r.text s = .ok h ∧ LabelsEnclose word.toList h.toList) ↔
          Literal word.toList ∧ Unlinked r.config.routeMethods word.toList)) ∧
    ∀ language, r.config.verbatimLanguage = some language → language ≠ "" →
      (r.NamesLanguage language ↔ Literal language.toList) := by
  refine ⟨⟨fun h => text_ok_iff.1 (h ""), fun h s => text_ok_iff.2 h⟩, showsCode_iff, ?_, ?_⟩
  · intro word cssClass hmarkers hne hword hset
    exact labelsEnclose_iff hmarkers hset hne hword
  · intro language hlanguage hne
    refine namesLanguage_iff ?_
    rw [hlanguage, Option.filter_some, if_pos (decide_eq_true hne)]

/-- A plain word and a plain language are shown as they are configured. -/
theorem configured_shown_of_plain :
    let r : Renderer := ⟨{ RenderConfig.default with
      markers := [("TODO", "label-warning")], verbatimLanguage := some "shop" }, "pod"⟩
    (∀ s, ∃ h, r.text s = .ok h) ∧ r.ShowsCode ∧
      (∀ s, ∃ h, r.text s = .ok h ∧ LabelsEnclose "TODO".toList h.toList) ∧
      r.NamesLanguage "shop" := by
  intro r
  have hset : PlainSetting r.config "label-warning" := ⟨by decide, by decide, by decide⟩
  have hword : Literal "TODO".toList := Replacement.literal_of_plain (by decide)
  have hlanguage : Literal "shop".toList := Replacement.literal_of_plain (by decide)
  have hunlinked : Unlinked r.config.routeMethods "TODO".toList := by
    unfold Unlinked
    decide
  have htemplate : ∀ m ∈ r.config.markers, IsTemplate (labelTemplate m.1 m.2) := by
    intro m hm
    rw [List.mem_singleton.1 hm]
    exact Replacement.isTemplate_iff.2 ⟨_, parts_label_of_literal hset hword⟩
  have hcode : IsTemplate (codeOpeningTemplate "shop").toList :=
    Replacement.isTemplate_iff.2 ⟨_, Replacement.parts_of_plain (by decide)⟩
  obtain ⟨htexts, hshows, hlabels, hnames⟩ := configured_shown_iff r
  exact ⟨htexts.2 htemplate, hshows.2 hcode,
    (hlabels "TODO" "label-warning" rfl (by decide) (by decide) hset).2 ⟨hword, hunlinked⟩,
    (hnames "shop" rfl (by decide)).2 hlanguage⟩

/-- With a marker word that is an escape of its own no text is shown, and a language with an escape
in it is shown as another one. -/
theorem configured_not_shown :
    let c : Config := { Config.default with rendering := { RenderConfig.default with
      markers := [("\\d", "x")], verbatimLanguage := some "a\\tb" } }
    let r : Renderer := ⟨c.rendering, c.fallbackPrefix⟩
    (Config.ofValue (.mapping [("rendering", .mapping [
      ("markers", .mapping [("\\d", .text "x")]),
      ("verbatim_language", .text "a\\tb")])])).toOption = some c ∧
    (r.text "a").toOption = none ∧
    (match r.render [] (codeElement []) [] with
      | .ok h _ => quotedAfter? languageLead h.toList
      | .error .. => none) = some "a\tb".toList :=
  ⟨by decide +kernel, by decide +kernel, by decide +kernel⟩

end Renderer
end RouteDocs.Html
