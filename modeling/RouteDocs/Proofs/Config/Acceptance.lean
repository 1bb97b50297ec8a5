import RouteDocs.Proofs.Config.NormalForm

/-!
# Which values are configurations

A configuration is looked up in the values of a mapping: four sections, each of which
may be absent or null, and in each a few settings, which keep their default where
they are absent. Each kind of setting has its own rule for what may be given. The
values that are accepted are those in which every setting follows its rule
(`IsAcceptable`) and what is taken as it is shown can be (`CanBeShown`), and the
configuration has the settings that are given (`described`).

Results:
* `textOr_ok_iff`, `switchOr_ok_iff`, `textsOr_ok_iff`, `wordsOr_ok_iff`, `optionalText_ok_iff`: the
  rules, and what is taken.
* `isConfig_ofMembers_iff`: a mapping is accepted if every setting in it follows its rule and can
  be shown, as the configuration that it describes.
* `ofMembers_tooLong`: a mapping in which every setting follows its rule is refused only for a
  number that is too long.
* `ofSetting_accepts`: what is accepted, what is reported of the rest, and that what was
  accepted is as described, is in normal form and is read back.
-/
namespace RouteDocs

open Text

namespace Setting

theorem ofValues_eq_map (items : List Value) : ofValues items = items.map ofValue := by
  induction items with
  | nil => rfl
  | cons v items ih => rw [ofValues, ih, List.map_cons]

theorem ofMembers_eq_textKeyed (ms : Entries String Value) :
    ofMembers ms = textKeyed (ms.map fun (k, v) => (k, ofValue v)) := by
  induction ms with
  | nil => rfl
  | cons m ms ih =>
    rw [ofMembers, ih]
    rfl

theorem map_ofMembers {α : Type} (f : Setting × Setting → α) (ms : Entries String Value) :
    (ofMembers ms).map f = ms.map fun m => f (ofText m.1, ofValue m.2) := by
  rw [ofMembers_eq_textKeyed, textKeyed, List.map_map, List.map_map]
  rfl

theorem member?_ofMembers (ms : Entries String Value) (key : String) :
    member? (ofMembers ms) key = (Entries.get? ms key).map ofValue := by
  rw [ofMembers_eq_textKeyed, member?_textKeyed]
  exact Entries.get?_map (fun _ => ofValue) ms key

end Setting

namespace Config

/-! ## The rules -/

def sectionOf (raw : Entries String Value) (name : String) : Entries String Value :=
  match Entries.get? raw name with
  | some (.mapping ms) => ms
  | _ => []

/-- What is given under a key of a section. -/
def given (raw : Entries String Value) (place : String × String) : Option Value :=
  Entries.get? (sectionOf raw place.1) place.2

/-- Every section is absent, null or a mapping, and every setting follows its rule. -/
structure IsAcceptable (raw : Entries String Value) : Prop where
  sections : ∀ name ∈ ["directives", "styling", "rendering", "identifiers"],
    ∀ v ∈ Entries.get? raw name, v = .null ∨ ∃ ms, v = .mapping ms
  texts : ∀ place ∈ [("directives", "target"), ("rendering", "anchor_prefix"),
    ("rendering", "sidebar_selector"), ("rendering", "pygments_style"),
    ("rendering", "pod_link_template"), ("identifiers", "fallback_prefix")],
    ∀ v ∈ given raw place, ∃ s, v = .text s
  switches : ∀ place ∈ [("directives", "strict"), ("styling", "enabled")],
    ∀ v ∈ given raw place, ∃ b, v = .bool b
  mappings : ∀ place ∈ [("styling", "list_classes"), ("rendering", "markers")],
    ∀ v ∈ given raw place, v = .null ∨ ∃ ms, v = .mapping ms
  methods : ∀ v ∈ given raw ("rendering", "route_methods"),
    v = .null ∨ (∃ s, v = .text s) ∨ ∃ items, v = .list items
  template : ∀ s, given raw ("rendering", "pod_link_template") = some (.text s) →
    "\x7btarget\x7d".toList <:+: s.toList
  fallback : ∀ s, given raw ("identifiers", "fallback_prefix") = some (.text s) →
    ∃ c ∈ s.toList.head?, c.isAlpha = true

/-- The values that are taken as they are shown can be: no number in them is too long. -/
def CanBeShown (raw : Entries String Value) : Prop :=
  ∀ place ∈ [("styling", "list_classes"), ("rendering", "markers"), ("rendering", "route_methods"),
    ("rendering", "verbatim_language")],
    ∀ v ∈ given raw place, v.isWritable = true

/-! ## What is taken -/

def textOf? : Value → Option WideText
  | .text s => some (.ofString s)
  | _ => none

def switchOf? : Value → Option Bool
  | .bool b => some b
  | _ => none

/-- A mapping as it is taken: its keys with its values as they are shown. -/
def textsOf? : Value → Option (Entries WideText WideText)
  | .mapping ms =>
    some (Entries.ofPairs (ms.map fun m => (.ofString m.1, (Setting.ofValue m.2).shown)))
  | _ => none

/-- The words of a text, or the items of a list as they are shown; the blank ones are left out. -/
def wordsOf? : Value → Option (List WideText)
  | .text s => some (nonBlank (WideText.ofString s).words)
  | .list items => some (nonBlank (items.map fun v => (Setting.ofValue v).shown))
  | _ => none

/-- Any value as it is shown, without the blanks around it, unless nothing remains. -/
def shownOf? : Value → Option WideText
  | .null => none
  | v =>
    let shown := (Setting.ofValue v).shown.trim
    if shown = [] then none else some shown

/-- What is taken of a value, or else the default. -/
def taken {α : Type} (read : Value → Option α) (v : Option Value) (default : α) : α :=
  (v.bind read).getD default

/-- The configuration that a mapping describes: what is given for each setting, or else what
holds when nothing is set. -/
def described (raw : Entries String Value) : WideConfig where
  directives := {
    target := taken textOf? (given raw ("directives", "target")) base.directives.target
    strict := taken switchOf? (given raw ("directives", "strict")) base.directives.strict }
  styling := {
    enabled := taken switchOf? (given raw ("styling", "enabled")) base.styling.enabled
    listClasses := taken textsOf? (given raw ("styling", "list_classes")) base.styling.listClasses }
  rendering := {
    anchorPrefix :=
      taken textOf? (given raw ("rendering", "anchor_prefix")) base.rendering.anchorPrefix
    podLinkTemplate :=
      taken textOf? (given raw ("rendering", "pod_link_template")) base.rendering.podLinkTemplate
    markers := taken textsOf? (given raw ("rendering", "markers")) base.rendering.markers
    routeMethods :=
      taken wordsOf? (given raw ("rendering", "route_methods")) base.rendering.routeMethods
    sidebarSelector :=
      taken textOf? (given raw ("rendering", "sidebar_selector")) base.rendering.sidebarSelector
    verbatimLanguage := (given raw ("rendering", "verbatim_language")).bind shownOf?
    highlightStyle :=
      taken textOf? (given raw ("rendering", "pygments_style")) base.rendering.highlightStyle }
  fallbackPrefix := taken textOf? (given raw ("identifiers", "fallback_prefix")) base.fallbackPrefix

/-! ## The readers -/

theorem sectionMembers_ok_iff {raw : Entries String Value} {name : String} {found : Members} :
    sectionMembers (Setting.ofMembers raw) name = .ok found ↔
      (∀ v ∈ Entries.get? raw name, v = .null ∨ ∃ ms, v = .mapping ms) ∧
        found = Setting.ofMembers (sectionOf raw name) := by
  rw [sectionMembers, Setting.member?_ofMembers, sectionOf]
  cases Entries.get? raw name with
  | none => simp [Setting.ofMembers, eq_comm]
  | some v =>
    cases v <;> simp [Setting.ofValue, Setting.ofMembers, Setting.ofText, Setting.members?,
      Setting.opened, refuse, eq_comm]

section
variable {ms : Entries String Value} {key : String}

theorem textOr_ok_iff {default t : WideText} :
    textOr (Setting.ofMembers ms) key default = .ok t ↔
      (∀ v ∈ Entries.get? ms key, ∃ s, v = .text s) ∧
        t = taken textOf? (Entries.get? ms key) default := by
  rw [textOr, Setting.member?_ofMembers]
  cases Entries.get? ms key with
  | none => simp [taken, eq_comm]
  | some v => cases v <;> simp [Setting.ofValue, Setting.ofText, refuse, taken, textOf?, eq_comm]

theorem switchOr_ok_iff {default b : Bool} :
    switchOr (Setting.ofMembers ms) key default = .ok b ↔
      (∀ v ∈ Entries.get? ms key, ∃ b, v = .bool b) ∧
        b = taken switchOf? (Entries.get? ms key) default := by
  rw [switchOr, Setting.member?_ofMembers]
  cases Entries.get? ms key with
  | none => simp [taken, eq_comm]
  | some v =>
    cases v with
    | bool b => simp [Setting.ofValue, taken, switchOf?, eq_comm]
    | _ =>
      simp only [Option.map_some, Setting.ofValue, Setting.ofText]
      split <;> simp [refuse]

theorem memberTexts_ok_iff {m : Setting × Setting} {texts : WideText × WideText} :
    memberTexts m = .ok texts ↔
      (m.1.isWritable = true ∧ m.2.isWritable = true) ∧ texts = (m.1.shown, m.2.shown) := by
  simp only [memberTexts, bind_eq_ok_iff, Setting.toText_ok_iff, pure_eq_ok_iff]
  constructor
  · rintro ⟨_, ⟨hkey, rfl⟩, _, ⟨hvalue, rfl⟩, rfl⟩
    exact ⟨⟨hkey, hvalue⟩, rfl⟩
  · rintro ⟨⟨hkey, hvalue⟩, rfl⟩
    exact ⟨_, ⟨hkey, rfl⟩, _, ⟨hvalue, rfl⟩, rfl⟩

theorem mapM_memberTexts_ok_iff {members : Entries String Value}
    {pairs : List (WideText × WideText)} :
    (Setting.ofMembers members).mapM memberTexts = .ok pairs ↔
      (Value.mapping members).isWritable = true ∧
        pairs = members.map fun m => (.ofString m.1, (Setting.ofValue m.2).shown) := by
  rw [mapM_eq_ok_iff fun m texts => memberTexts_ok_iff, ← Setting.membersWritable_iff,
    Setting.map_ofMembers]
  rfl

theorem mapM_toText_ok_iff {items : List Value} {texts : List WideText} :
    (Setting.ofValues items).mapM Setting.toText = .ok texts ↔
      (Value.list items).isWritable = true ∧
        texts = items.map fun v => (Setting.ofValue v).shown := by
  rw [mapM_eq_ok_iff fun s t => Setting.toText_ok_iff, ← Setting.areWritable_iff,
    Setting.ofValues_eq_map, List.map_map, ← Setting.ofValues_eq_map]
  rfl

theorem textsOr_ok_iff {default es : Entries WideText WideText} :
    textsOr (Setting.ofMembers ms) key default = .ok es ↔
      ((∀ v ∈ Entries.get? ms key, v = .null ∨ ∃ members, v = .mapping members) ∧
        ∀ v ∈ Entries.get? ms key, v.isWritable = true) ∧
        es = taken textsOf? (Entries.get? ms key) default := by
  rw [textsOr, Setting.member?_ofMembers, eq_comm (a := es)]
  cases Entries.get? ms key with
  | none => simp [taken]
  | some v =>
    cases v with
    | mapping members =>
      have hread : ((Setting.ofMembers members).mapM memberTexts).map Entries.ofPairs = .ok es ↔
          (Value.mapping members).isWritable = true ∧
            Entries.ofPairs (members.map fun m => (.ofString m.1, (Setting.ofValue m.2).shown)) =
              es := by
        rw [map_eq_ok_iff]
        simp only [mapM_memberTexts_ok_iff, and_assoc, exists_and_left, exists_eq_left]
      simpa [Setting.ofValue, Setting.members?, Setting.opened, taken, textsOf?] using hread
    | _ =>
      simp [Setting.ofValue, Setting.ofText, Setting.members?, Setting.opened, refuse, taken,
        textsOf?, Value.isWritable, Setting.isWritable]

theorem wordsOr_ok_iff {default ss : List WideText} :
    wordsOr (Setting.ofMembers ms) key default = .ok ss ↔
      ((∀ v ∈ Entries.get? ms key, v = .null ∨ (∃ s, v = .text s) ∨ ∃ items, v = .list items) ∧
        ∀ v ∈ Entries.get? ms key, v.isWritable = true) ∧
        ss = taken wordsOf? (Entries.get? ms key) default := by
  rw [wordsOr, Setting.member?_ofMembers, eq_comm (a := ss)]
  cases Entries.get? ms key with
  | none => simp [taken]
  | some v =>
    cases v with
    | list items =>
      have hread : ((Setting.ofValues items).mapM Setting.toText).map nonBlank = .ok ss ↔
          (Value.list items).isWritable = true ∧
            nonBlank (items.map fun v => (Setting.ofValue v).shown) = ss := by
        rw [map_eq_ok_iff]
        simp only [mapM_toText_ok_iff, and_assoc, exists_and_left, exists_eq_left]
      simpa [Setting.ofValue, Setting.opened, taken, wordsOf?] using hread
    | _ =>
      simp [Setting.ofValue, Setting.ofText, Setting.opened, refuse, taken, wordsOf?,
        Value.isWritable, Setting.isWritable]

theorem optionalText_ok_iff {t : Option WideText} :
    optionalText (Setting.ofMembers ms) key = .ok t ↔
      (∀ v ∈ Entries.get? ms key, v.isWritable = true) ∧
        t = (Entries.get? ms key).bind shownOf? := by
  rw [optionalText, Setting.member?_ofMembers, eq_comm (a := t)]
  cases Entries.get? ms key with
  | none => simp
  | some v =>
    cases v with
    | null => simp [Setting.ofValue, shownOf?, Value.isWritable, Setting.isWritable]
    | _ =>
      simp only [Option.map_some, Option.bind_some, Setting.ofValue, Setting.ofText, shownOf?,
        bind_eq_ok_iff, Setting.toText_ok_iff, pure_eq_ok_iff, and_assoc, exists_and_left,
        exists_eq_left, Option.mem_def, Option.some.injEq, forall_eq']
      rfl

end

theorem forall_taken_text {default : WideText} {p : WideText → Prop} (hdefault : p default)
    (v : Option Value) :
    p (taken textOf? v default) ↔ ∀ s, v = some (.text s) → p (.ofString s) := by
  cases v with
  | none => simpa [taken] using hdefault
  | some v => cases v <;> simp [taken, textOf?, hdefault]

theorem occursIn_placeholder {s : String} :
    occursIn placeholder (.ofString s) = true ↔ "\x7btarget\x7d".toList <:+: s.toList :=
  occursIn_iff.trans ⟨infix_ofChars, fun h => h.map _⟩

theorem isFallback_ofString {s : String} :
    isFallback (.ofString s) = true ↔ ∃ c ∈ s.toList.head?, c.isAlpha = true := by
  rw [WideText.ofString, WideText.ofChars]
  cases s.toList <;> simp [isFallback, CodePoint.isCharOf]

/-! ## The sections -/

section
variable {raw : Entries String Value}

theorem sectionIs_iff {α : Type} {name : String} {settings : Members → α → Prop} {c : α} :
    SectionIs (Setting.ofMembers raw) name settings c ↔
      (∀ v ∈ Entries.get? raw name, v = .null ∨ ∃ ms, v = .mapping ms) ∧
        settings (Setting.ofMembers (sectionOf raw name)) c := by
  simp only [SectionIs, sectionMembers_ok_iff]
  constructor
  · rintro ⟨ms, ⟨hsection, rfl⟩, hc⟩
    exact ⟨hsection, hc⟩
  · rintro ⟨hsection, hc⟩
    exact ⟨_, ⟨hsection, rfl⟩, hc⟩

theorem isDirectives_iff {c : DirectiveRulesOf WideText} :
    IsDirectives (Setting.ofMembers (sectionOf raw "directives")) c ↔
      ((∀ v ∈ given raw ("directives", "target"), ∃ s, v = .text s) ∧
        ∀ v ∈ given raw ("directives", "strict"), ∃ b, v = .bool b) ∧
      c = (described raw).directives := by
  cases c with | mk target strict =>
  constructor
  · rintro ⟨h₁, h₂⟩
    obtain ⟨htarget, rfl⟩ := textOr_ok_iff.1 h₁
    obtain ⟨hstrict, rfl⟩ := switchOr_ok_iff.1 h₂
    exact ⟨⟨htarget, hstrict⟩, rfl⟩
  · rintro ⟨⟨htarget, hstrict⟩, hc⟩
    cases hc
    exact ⟨textOr_ok_iff.2 ⟨htarget, rfl⟩, switchOr_ok_iff.2 ⟨hstrict, rfl⟩⟩

theorem isStyling_iff {c : StylingConfigOf WideText} :
    IsStyling (Setting.ofMembers (sectionOf raw "styling")) c ↔
      ((∀ v ∈ given raw ("styling", "enabled"), ∃ b, v = .bool b) ∧
        (∀ v ∈ given raw ("styling", "list_classes"), v = .null ∨ ∃ ms, v = .mapping ms) ∧
        ∀ v ∈ given raw ("styling", "list_classes"), v.isWritable = true) ∧
      c = (described raw).styling := by
  cases c with | mk enabled classes =>
  constructor
  · rintro ⟨h₁, h₂⟩
    obtain ⟨henabled, rfl⟩ := switchOr_ok_iff.1 h₁
    obtain ⟨⟨hclasses, hwritable⟩, rfl⟩ := textsOr_ok_iff.1 h₂
    exact ⟨⟨henabled, hclasses, hwritable⟩, rfl⟩
  · rintro ⟨⟨henabled, hclasses, hwritable⟩, hc⟩
    cases hc
    exact ⟨switchOr_ok_iff.2 ⟨henabled, rfl⟩, textsOr_ok_iff.2 ⟨⟨hclasses, hwritable⟩, rfl⟩⟩

theorem holdsPlace_iff :
    occursIn placeholder (taken textOf? (given raw ("rendering", "pod_link_template"))
      base.rendering.podLinkTemplate) = true ↔
      ∀ s, given raw ("rendering", "pod_link_template") = some (.text s) →
        "\x7btarget\x7d".toList <:+: s.toList := by
  have hplace := forall_taken_text (p := fun t => occursIn placeholder t = true)
    isNormal_base.template (given raw ("rendering", "pod_link_template"))
  simpa only [occursIn_placeholder] using hplace

/-- A section about rendering is accepted if its template has the placeholder in it, every setting
follows its rule, and what is taken as it is shown can be. -/
theorem isRendering_iff {c : RenderConfigOf WideText} :
    IsRendering (Setting.ofMembers (sectionOf raw "rendering")) c ↔
      (((∀ v ∈ given raw ("rendering", "pod_link_template"), ∃ s, v = .text s) ∧
        ∀ s, given raw ("rendering", "pod_link_template") = some (.text s) →
          "\x7btarget\x7d".toList <:+: s.toList) ∧
      (∀ v ∈ given raw ("rendering", "anchor_prefix"), ∃ s, v = .text s) ∧
      (∀ v ∈ given raw ("rendering", "markers"), v = .null ∨ ∃ ms, v = .mapping ms) ∧
      (∀ v ∈ given raw ("rendering", "route_methods"),
        v = .null ∨ (∃ s, v = .text s) ∨ ∃ items, v = .list items) ∧
      (∀ v ∈ given raw ("rendering", "sidebar_selector"), ∃ s, v = .text s) ∧
      (∀ v ∈ given raw ("rendering", "pygments_style"), ∃ s, v = .text s) ∧
      (∀ v ∈ given raw ("rendering", "markers"), v.isWritable = true) ∧
      (∀ v ∈ given raw ("rendering", "route_methods"), v.isWritable = true) ∧
      ∀ v ∈ given raw ("rendering", "verbatim_language"), v.isWritable = true) ∧
      c = (described raw).rendering := by
  cases c with | mk anchor template markers methods selector language style =>
  constructor
  · rintro ⟨h₁, hholds, h₂, h₃, h₄, h₅, h₆, h₇⟩
    obtain ⟨htemplate, rfl⟩ := textOr_ok_iff.1 h₁
    obtain ⟨hanchor, rfl⟩ := textOr_ok_iff.1 h₂
    obtain ⟨⟨hmarkers, hmarkers'⟩, rfl⟩ := textsOr_ok_iff.1 h₃
    obtain ⟨⟨hmethods, hmethods'⟩, rfl⟩ := wordsOr_ok_iff.1 h₄
    obtain ⟨hselector, rfl⟩ := textOr_ok_iff.1 h₅
    obtain ⟨hlanguage, rfl⟩ := optionalText_ok_iff.1 h₆
    obtain ⟨hstyle, rfl⟩ := textOr_ok_iff.1 h₇
    exact ⟨⟨⟨htemplate, holdsPlace_iff.1 hholds⟩, hanchor, hmarkers, hmethods, hselector, hstyle,
      hmarkers', hmethods', hlanguage⟩, rfl⟩
  · rintro ⟨⟨⟨htemplate, hholds⟩, hanchor, hmarkers, hmethods, hselector, hstyle, hmarkers',
      hmethods', hlanguage⟩, hc⟩
    cases hc
    exact {
      template := textOr_ok_iff.2 ⟨htemplate, rfl⟩
      holdsPlace := holdsPlace_iff.2 hholds
      anchorPrefix := textOr_ok_iff.2 ⟨hanchor, rfl⟩
      markers := textsOr_ok_iff.2 ⟨⟨hmarkers, hmarkers'⟩, rfl⟩
      methods := wordsOr_ok_iff.2 ⟨⟨hmethods, hmethods'⟩, rfl⟩
      selector := textOr_ok_iff.2 ⟨hselector, rfl⟩
      language := optionalText_ok_iff.2 ⟨hlanguage, rfl⟩
      style := textOr_ok_iff.2 ⟨hstyle, rfl⟩ }

theorem isIdentifiers_iff {s : WideText} :
    IsIdentifiers (Setting.ofMembers (sectionOf raw "identifiers")) s ↔
      ((∀ v ∈ given raw ("identifiers", "fallback_prefix"), ∃ s, v = .text s) ∧
        ∀ s, given raw ("identifiers", "fallback_prefix") = some (.text s) →
          ∃ c ∈ s.toList.head?, c.isAlpha = true) ∧
      s = (described raw).fallbackPrefix := by
  have hletter := forall_taken_text (p := fun s => isFallback s = true) isNormal_base.fallback
    (given raw ("identifiers", "fallback_prefix"))
  simp only [isFallback_ofString] at hletter
  constructor
  · rintro ⟨h₁, hstarts⟩
    obtain ⟨hfallback, rfl⟩ := textOr_ok_iff.1 h₁
    exact ⟨⟨hfallback, hletter.1 hstarts⟩, rfl⟩
  · rintro ⟨⟨hfallback, hstarts⟩, rfl⟩
    exact ⟨textOr_ok_iff.2 ⟨hfallback, rfl⟩, hletter.2 hstarts⟩

/-! ## The configuration -/

/-- A mapping is accepted if every setting in it follows its rule and can be shown, as the
configuration that it describes. -/
theorem isConfig_ofMembers_iff {w : WideConfig} :
    IsConfig (Setting.ofMembers raw) w ↔
      (IsAcceptable raw ∧ CanBeShown raw) ∧ w = described raw := by
  cases w with | mk directives styling rendering fallback =>
  constructor
  · rintro ⟨h₁, h₂, h₃, h₄⟩
    obtain ⟨hdirectives, h₁⟩ := sectionIs_iff.1 h₁
    obtain ⟨hstyling, h₂⟩ := sectionIs_iff.1 h₂
    obtain ⟨hrendering, h₃⟩ := sectionIs_iff.1 h₃
    obtain ⟨hidentifiers, h₄⟩ := sectionIs_iff.1 h₄
    obtain ⟨⟨htarget, hstrict⟩, rfl⟩ := isDirectives_iff.1 h₁
    obtain ⟨⟨henabled, hclasses, hclasses'⟩, rfl⟩ := isStyling_iff.1 h₂
    obtain ⟨⟨⟨htext, htemplate⟩, hanchor, hmarkers, hmethods, hselector, hstyle, hmarkers',
      hmethods', hlanguage⟩, rfl⟩ := isRendering_iff.1 h₃
    obtain ⟨⟨hstart, hfallback⟩, rfl⟩ := isIdentifiers_iff.1 h₄
    have hshown : CanBeShown raw := by
      simp only [CanBeShown, List.forall_mem_cons]
      exact ⟨hclasses', hmarkers', hmethods', hlanguage, nofun⟩
    refine ⟨⟨?_, hshown⟩, rfl⟩
    exact {
      sections := by
        simp only [List.forall_mem_cons]
        exact ⟨hdirectives, hstyling, hrendering, hidentifiers, nofun⟩
      texts := by
        simp only [List.forall_mem_cons]
        exact ⟨htarget, hanchor, hselector, hstyle, htext, hstart, nofun⟩
      switches := by
        simp only [List.forall_mem_cons]
        exact ⟨hstrict, henabled, nofun⟩
      mappings := by
        simp only [List.forall_mem_cons]
        exact ⟨hclasses, hmarkers, nofun⟩
      methods := hmethods
      template := htemplate
      fallback := hfallback }
  · rintro ⟨⟨h, hshown⟩, hw⟩
    cases hw
    have hwritable := fun name key hplace => hshown (name, key) hplace
    have htext := fun name key hplace => h.texts (name, key) hplace
    have hswitch := fun name key hplace => h.switches (name, key) hplace
    have hmapping := fun name key hplace => h.mappings (name, key) hplace
    refine ⟨sectionIs_iff.2 ⟨h.sections _ ?_, isDirectives_iff.2 ⟨⟨htext _ _ ?_,
        hswitch _ _ ?_⟩, rfl⟩⟩,
      sectionIs_iff.2 ⟨h.sections _ ?_, isStyling_iff.2 ⟨⟨hswitch _ _ ?_,
        hmapping _ _ ?_, hwritable _ _ ?_⟩, rfl⟩⟩,
      sectionIs_iff.2 ⟨h.sections _ ?_, isRendering_iff.2 ⟨⟨⟨htext _ _ ?_, h.template⟩,
        htext _ _ ?_, hmapping _ _ ?_, h.methods, htext _ _ ?_, htext _ _ ?_, hwritable _ _ ?_,
        hwritable _ _ ?_, hwritable _ _ ?_⟩, rfl⟩⟩,
      sectionIs_iff.2 ⟨h.sections _ ?_, isIdentifiers_iff.2 ⟨⟨htext _ _ ?_, h.fallback⟩, rfl⟩⟩⟩
    all_goals decide

end

/-! ## What is refused -/

section
variable {ms : Entries String Value} {key : String}

theorem textsOr_tooLong {default : Entries WideText WideText}
    (h : ∀ v ∈ Entries.get? ms key, v = .null ∨ ∃ members, v = .mapping members) :
    FailsAs (· = .tooManyDigits) (textsOr (Setting.ofMembers ms) key default) := by
  rw [textsOr, Setting.member?_ofMembers]
  cases hv : Entries.get? ms key with
  | none => exact .ok _
  | some v =>
    rcases h v hv with rfl | ⟨members, rfl⟩
    · exact .ok _
    · have hshown : FailsAs (· = .tooManyDigits) ((Setting.ofMembers members).mapM memberTexts) :=
        .mapM fun m _ => failsAs_memberTexts fun _ => rfl
      exact hshown.map _

theorem wordsOr_tooLong {default : List WideText}
    (h : ∀ v ∈ Entries.get? ms key, v = .null ∨ (∃ s, v = .text s) ∨ ∃ items, v = .list items) :
    FailsAs (· = .tooManyDigits) (wordsOr (Setting.ofMembers ms) key default) := by
  rw [wordsOr, Setting.member?_ofMembers]
  cases hv : Entries.get? ms key with
  | none => exact .ok _
  | some v =>
    rcases h v hv with rfl | ⟨s, rfl⟩ | ⟨items, rfl⟩
    · exact .ok _
    · exact .ok _
    · have hshown : FailsAs (· = .tooManyDigits) ((Setting.ofValues items).mapM Setting.toText) :=
        .mapM fun s _ => failsAs_toText fun _ => rfl
      exact hshown.map _

theorem optionalText_tooLong {members : Members} :
    FailsAs (· = .tooManyDigits) (optionalText members key) :=
  failsAs_optionalText fun _ => rfl

end

/-- A mapping in which every setting follows its rule is refused only for a number that is too
long. -/
theorem ofMembers_tooLong {raw : Entries String Value} (h : IsAcceptable raw) :
    FailsAs (· = .tooManyDigits) (ofMembers (Setting.ofMembers raw)) := by
  have hsection : ∀ name ∈ ["directives", "styling", "rendering", "identifiers"],
      sectionMembers (Setting.ofMembers raw) name =
        .ok (Setting.ofMembers (sectionOf raw name)) :=
    fun name hname => sectionMembers_ok_iff.2 ⟨h.sections name hname, rfl⟩
  have htext := fun name key hplace => h.texts (name, key) hplace
  have hswitch := fun name key hplace => h.switches (name, key) hplace
  have hmapping := fun name key hplace => h.mappings (name, key) hplace
  have hdirectives : ∃ c, readDirectives (Setting.ofMembers (sectionOf raw "directives")) = .ok c :=
    ⟨_, readDirectives_iff.2 (isDirectives_iff.2
      ⟨⟨htext _ _ (by decide), hswitch _ _ (by decide)⟩, rfl⟩)⟩
  have hstyling : FailsAs (· = .tooManyDigits)
      (readStyling (Setting.ofMembers (sectionOf raw "styling"))) :=
    .bind_ok (switchOr_ok_iff.2 ⟨hswitch "styling" "enabled" (by decide), rfl⟩) <|
      (textsOr_tooLong (hmapping "styling" "list_classes" (by decide))).bind fun _ _ => .ok _
  have hrendering : FailsAs (· = .tooManyDigits)
      (readRendering (Setting.ofMembers (sectionOf raw "rendering"))) :=
    .bind_ok (textOr_ok_iff.2 ⟨htext _ _ (by decide), rfl⟩) <|
      failsAs_passed (holdsPlace_iff.2 h.template) <|
      .bind_ok (textOr_ok_iff.2 ⟨htext _ _ (by decide), rfl⟩) <|
      (textsOr_tooLong (hmapping _ _ (by decide))).bind fun _ _ =>
      (wordsOr_tooLong h.methods).bind fun _ _ =>
      .bind_ok (textOr_ok_iff.2 ⟨htext _ _ (by decide), rfl⟩) <|
      optionalText_tooLong.bind fun _ _ =>
      .bind_ok (textOr_ok_iff.2 ⟨htext _ _ (by decide), rfl⟩) <| .ok _
  have hidentifiers : ∃ s, readFallback (Setting.ofMembers (sectionOf raw "identifiers")) = .ok s :=
    ⟨_, readFallback_iff.2 (isIdentifiers_iff.2 ⟨⟨htext _ _ (by decide), h.fallback⟩, rfl⟩)⟩
  obtain ⟨_, hdirectives⟩ := hdirectives
  obtain ⟨_, hidentifiers⟩ := hidentifiers
  exact .bind_ok (hsection _ (by decide)) <| .bind_ok hdirectives <|
    .bind_ok (hsection _ (by decide)) <| hstyling.bind fun _ _ =>
    .bind_ok (hsection _ (by decide)) <| hrendering.bind fun _ _ =>
    .bind_ok (hsection _ (by decide)) <| .bind_ok hidentifiers <| .ok _

/-- A mapping of values is accepted as a configuration exactly if its sections and settings follow
their rules and what is taken as it is shown can be. If only a number is too long to be shown, that
is what is wrong; anything else is refused as a configuration, unless a number in it is too long.
What is accepted has the settings that are given and the defaults of the others, has its methods
and its language trimmed, and is read as it was when it has been written back. -/
theorem ofSetting_accepts (raw : Entries String Value) :
    let built := ofSetting (Setting.ofValue (.mapping raw))
    ((∃ w, built = .ok w) ↔ IsAcceptable raw ∧ CanBeShown raw) ∧
      (IsAcceptable raw → ¬ CanBeShown raw → built = .error .tooManyDigits) ∧
      (¬ IsAcceptable raw → (∃ p, built = .error (.config p)) ∨
        built = .error .tooManyDigits ∧ (Value.mapping raw).isWritable = false) ∧
      ∀ w, built = .ok w →
        w = described raw ∧
        (∀ m ∈ w.rendering.routeMethods, IsTrimmed m) ∧
        (∀ l ∈ w.rendering.verbatimLanguage, IsTrimmed l) ∧
        ofSetting (toSetting w) = .ok w := by
  intro built
  have hread : ∀ w, built = .ok w ↔ (IsAcceptable raw ∧ CanBeShown raw) ∧ w = described raw :=
    fun w => ofMembers_iff.trans isConfig_ofMembers_iff
  refine ⟨⟨?_, fun h => ⟨_, (hread _).2 ⟨h, rfl⟩⟩⟩, fun hrules hlong => ?_, fun hnot => ?_,
    fun w hw => ?_⟩
  · rintro ⟨w, hw⟩
    exact ((hread w).1 hw).1
  · cases hbuilt : built with
    | ok w => exact absurd ((hread w).1 hbuilt).1.2 hlong
    | error f => rw [ofMembers_tooLong hrules f hbuilt]
  · cases hbuilt : built with
    | ok w => exact absurd ((hread w).1 hbuilt).1.1 hnot
    | error f =>
      rcases ofMembers_error hbuilt with ⟨p, rfl⟩ | ⟨rfl, hlong⟩
      · exact .inl ⟨p, rfl⟩
      · exact .inr ⟨rfl, hlong⟩
  · have hnormal := isNormal_of_isConfig (ofMembers_iff.1 hw)
    exact ⟨((hread w).1 hw).2, hnormal.methods, hnormal.language, ofSetting_toSetting hnormal⟩

theorem isAcceptable_language (v : Value) :
    IsAcceptable [("rendering", .mapping [("verbatim_language", v)])] where
  sections := by simp [Entries.get?]
  texts := by simp [given, sectionOf, Entries.get?]
  switches := by simp [given, sectionOf, Entries.get?]
  mappings := by simp [given, sectionOf, Entries.get?]
  methods := by simp [given, sectionOf, Entries.get?]
  template := by simp [given, sectionOf, Entries.get?]
  fallback := by simp [given, sectionOf, Entries.get?]

/-- A language of 4335 digits, as a file can give it in 3601 hexadecimal ones: every rule is
followed, and what is refused is no configuration but the number. -/
theorem language_tooLong :
    let n : ℤ := (Nat.pow 16 3600 : ℕ)
    let raw : Entries String Value := [("rendering", .mapping [("verbatim_language", .int n)])]
    IsAcceptable raw ∧ ofSetting (Setting.ofValue (.mapping raw)) = .error .tooManyDigits := by
  intro n raw
  have hlong : Numeral.isWritable n = false := by
    unfold Numeral.isWritable
    decide +kernel
  have hrules : IsAcceptable raw := isAcceptable_language _
  refine ⟨hrules, ?_⟩
  cases hbuilt : ofSetting (Setting.ofValue (.mapping raw)) with
  | ok w =>
    have hshown := (isConfig_ofMembers_iff.1 (ofMembers_iff.1 hbuilt)).1.2
    have hwritable : Numeral.isWritable n = true :=
      hshown ("rendering", "verbatim_language") (by decide) (.int n) rfl
    rw [hlong] at hwritable
    cases hwritable
  | error f => rw [ofMembers_tooLong hrules f hbuilt]

end Config

end RouteDocs
