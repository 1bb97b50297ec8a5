import RouteDocs.Config.Reader
import RouteDocs.Proofs.Bind
import RouteDocs.Proofs.Entries

/-!
# What the readers of a configuration accept

Each section of a configuration is read setting by setting. A section is accepted
exactly if each of its settings is, so what is known of an accepted one is a row of
facts about its settings, in which their order plays no role. Nothing is refused but
as a configuration, unless a number in it is too long to be written.

Results:
* `readDirectives_iff`, `readStyling_iff`, `readRendering_iff`, `readFallback_iff`,
  `ofMembers_iff`: an accepted section, setting by setting, and an accepted
  configuration, section by section.
* `Setting.isWritable_opened`: what a collection refers back to can be written if it can be.
* `ofMembers_error`: whatever is refused is refused as a configuration, or for such a number.
-/
namespace RouteDocs

/-! ## Settings that can be written -/

namespace Setting

mutual

theorem isWritable_replace {label : Nat} {whole : Setting} (hwhole : whole.isWritable = true) :
    ∀ s : Setting, s.isWritable = true → (replace label whole s).isWritable = true
  | list items, h => areWritable_replaceItems hwhole items h
  | tuple items, h => areWritable_replaceItems hwhole items h
  | set items, h => areWritable_replaceItems hwhole items h
  | mapping members, h => membersWritable_replaceMembers hwhole members h
  | ordered members, h => membersWritable_replaceMembers hwhole members h
  | shared l content, h => by
    unfold replace
    split
    · exact h
    · exact isWritable_replace hwhole content h
  | back l, h => by
    unfold replace
    split
    · exact hwhole
    · exact h
  | null, h | bool _, h | int _, h | real _, h | text _, h | bytes _, h | date _, h
  | moment _, h => h

theorem areWritable_replaceItems {label : Nat} {whole : Setting}
    (hwhole : whole.isWritable = true) :
    ∀ items : List Setting, areWritable items = true →
      areWritable (replaceItems label whole items) = true
  | [], _ => rfl
  | s :: rest, h => by
    obtain ⟨hs, hrest⟩ := Bool.and_eq_true_iff.1 h
    rw [replaceItems, areWritable, isWritable_replace hwhole s hs,
      areWritable_replaceItems hwhole rest hrest, Bool.and_self]

theorem membersWritable_replaceMembers {label : Nat} {whole : Setting}
    (hwhole : whole.isWritable = true) :
    ∀ members : List (Setting × Setting), membersWritable members = true →
      membersWritable (replaceMembers label whole members) = true
  | [], _ => rfl
  | (k, v) :: rest, h => by
    obtain ⟨hkv, hrest⟩ := Bool.and_eq_true_iff.1 h
    obtain ⟨hk, hv⟩ := Bool.and_eq_true_iff.1 hkv
    rw [replaceMembers, membersWritable, isWritable_replace hwhole k hk,
      isWritable_replace hwhole v hv, membersWritable_replaceMembers hwhole rest hrest,
      Bool.and_self, Bool.and_self]

end

/-- A collection that can be written is put in the places that stand for it. -/
theorem isWritable_opened {s : Setting} (h : s.isWritable = true) : s.opened.isWritable = true := by
  unfold opened
  split
  · exact isWritable_replace h _ h
  · exact h

theorem areWritable_iff {items : List Setting} :
    areWritable items = true ↔ ∀ s ∈ items, s.isWritable = true := by
  induction items with
  | nil => exact iff_of_true rfl nofun
  | cons s rest ih => rw [areWritable, Bool.and_eq_true, ih, List.forall_mem_cons]

theorem membersWritable_iff {members : List (Setting × Setting)} :
    membersWritable members = true ↔
      ∀ m ∈ members, m.1.isWritable = true ∧ m.2.isWritable = true := by
  induction members with
  | nil => exact iff_of_true rfl nofun
  | cons m rest ih =>
    rw [membersWritable, Bool.and_eq_true, Bool.and_eq_true, ih, List.forall_mem_cons]

theorem membersWritable_members? {s : Setting} {ms : List (Setting × Setting)}
    (hms : s.members? = some ms) (h : s.isWritable = true) : membersWritable ms = true := by
  have hopened := isWritable_opened h
  unfold members? at hms
  split at hms
  · rename_i hs
    cases hms
    rwa [hs] at hopened
  · rename_i hs
    cases hms
    rwa [hs] at hopened
  · cases hms

/-- What is found among members that can be written can be. -/
theorem isWritable_member? {members : List (Setting × Setting)} {key : String} {s : Setting}
    (hs : member? members key = some s) (h : membersWritable members = true) :
    s.isWritable = true := by
  unfold member? at hs
  split at hs
  · rename_i hfound
    cases hs
    exact (membersWritable_iff.1 h _ (List.mem_of_find?_eq_some hfound)).2
  · cases hs

end Setting

namespace Config

open Text

/-! ## Placeholders -/

theorem occursIn_iff {part s : WideText} : occursIn part s = true ↔ part <:+: s := by
  induction s with
  | nil => simp [occursIn]
  | cons c s ih =>
    rw [occursIn, Bool.or_eq_true, List.isPrefixOf_iff_prefix, ih, List.infix_cons_iff]

theorem infix_ofChars {s t : List Char} (h : WideText.ofChars s <:+: WideText.ofChars t) :
    s <:+: t := by
  have hchars : ∀ s, (WideText.ofChars s).filterMap CodePoint.char? = s := by
    intro s
    rw [WideText.ofChars, List.filterMap_map]
    exact List.filterMap_some
  have hwithin := h.filterMap CodePoint.char?
  rwa [hchars, hchars] at hwithin

/-! ## Accepted sections -/

/-- The settings of the section about directives, read one by one. -/
structure IsDirectives (ms : Members) (c : DirectiveRulesOf WideText) : Prop where
  target : textOr ms "target" base.directives.target = .ok c.target
  strict : switchOr ms "strict" base.directives.strict = .ok c.strict

/-- The settings of the section about classes. -/
structure IsStyling (ms : Members) (c : StylingConfigOf WideText) : Prop where
  enabled : switchOr ms "enabled" base.styling.enabled = .ok c.enabled
  listClasses : textsOr ms "list_classes" base.styling.listClasses = .ok c.listClasses

/-- The settings of the section about rendering. -/
structure IsRendering (ms : Members) (c : RenderConfigOf WideText) : Prop where
  template : textOr ms "pod_link_template" base.rendering.podLinkTemplate = .ok c.podLinkTemplate
  holdsPlace : occursIn placeholder c.podLinkTemplate = true
  anchorPrefix : textOr ms "anchor_prefix" base.rendering.anchorPrefix = .ok c.anchorPrefix
  markers : textsOr ms "markers" base.rendering.markers = .ok c.markers
  methods : wordsOr ms "route_methods" base.rendering.routeMethods = .ok c.routeMethods
  selector : textOr ms "sidebar_selector" base.rendering.sidebarSelector = .ok c.sidebarSelector
  language : optionalText ms "verbatim_language" = .ok c.verbatimLanguage
  style : textOr ms "pygments_style" base.rendering.highlightStyle = .ok c.highlightStyle

/-- The settings of the section about identifiers. -/
structure IsIdentifiers (ms : Members) (s : WideText) : Prop where
  fallback : textOr ms "fallback_prefix" base.fallbackPrefix = .ok s
  letter : isFallback s = true

/-- A section of a configuration is absent, null or a mapping, and its settings are these. -/
def SectionIs {α : Type} (root : Members) (name : String) (settings : Members → α → Prop) (c : α) :
    Prop :=
  ∃ ms, sectionMembers root name = .ok ms ∧ settings ms c

/-- The sections of a configuration, read one by one. -/
structure IsConfig (root : Members) (w : WideConfig) : Prop where
  directives : SectionIs root "directives" IsDirectives w.directives
  styling : SectionIs root "styling" IsStyling w.styling
  rendering : SectionIs root "rendering" IsRendering w.rendering
  identifiers : SectionIs root "identifiers" IsIdentifiers w.fallbackPrefix

theorem pure_eq_ok_iff {α : Type} {a b : α} : (pure a : Except Fault α) = .ok b ↔ a = b :=
  ⟨Except.ok.inj, congrArg _⟩

theorem guard_eq_ok_iff {α : Type} {asked : Bool} {p : ConfigProblem} {rest : Except Fault α}
    {v : α} :
    (if (!asked) = true then (do (refuse p : Except Fault PUnit); rest) else rest) = .ok v ↔
      asked = true ∧ rest = .ok v := by
  cases asked with
  | false => exact ⟨nofun, nofun⟩
  | true => exact (and_iff_right rfl).symm

theorem readDirectives_iff {ms : Members} {c : DirectiveRulesOf WideText} :
    readDirectives ms = .ok c ↔ IsDirectives ms c := by
  simp only [readDirectives, bind_eq_ok_iff, pure_eq_ok_iff]
  constructor
  · rintro ⟨_, htarget, _, hstrict, rfl⟩
    exact ⟨htarget, hstrict⟩
  · intro h
    exact ⟨_, h.target, _, h.strict, rfl⟩

theorem readStyling_iff {ms : Members} {c : StylingConfigOf WideText} :
    readStyling ms = .ok c ↔ IsStyling ms c := by
  simp only [readStyling, bind_eq_ok_iff, pure_eq_ok_iff]
  constructor
  · rintro ⟨_, henabled, _, hclasses, rfl⟩
    exact ⟨henabled, hclasses⟩
  · intro h
    exact ⟨_, h.enabled, _, h.listClasses, rfl⟩

theorem readRendering_iff {ms : Members} {c : RenderConfigOf WideText} :
    readRendering ms = .ok c ↔ IsRendering ms c := by
  simp only [readRendering, bind_eq_ok_iff, guard_eq_ok_iff, pure_eq_ok_iff]
  constructor
  · rintro ⟨_, htemplate, hplace, _, hanchor, _, hmarkers, _, hmethods, _, hselector, _, hlanguage,
      _, hstyle, rfl⟩
    exact ⟨htemplate, hplace, hanchor, hmarkers, hmethods, hselector, hlanguage, hstyle⟩
  · intro h
    exact ⟨_, h.template, h.holdsPlace, _, h.anchorPrefix, _, h.markers, _, h.methods, _,
      h.selector, _, h.language, _, h.style, rfl⟩

theorem readFallback_iff {ms : Members} {s : WideText} :
    readFallback ms = .ok s ↔ IsIdentifiers ms s := by
  simp only [readFallback, bind_eq_ok_iff, guard_eq_ok_iff, pure_eq_ok_iff]
  constructor
  · rintro ⟨_, hfallback, hletter, rfl⟩
    exact ⟨hfallback, hletter⟩
  · intro h
    exact ⟨_, h.fallback, h.letter, rfl⟩

/-- A configuration is accepted section by section. -/
theorem ofMembers_iff {root : Members} {w : WideConfig} :
    ofMembers root = .ok w ↔ IsConfig root w := by
  simp only [ofMembers, bind_eq_ok_iff, pure_eq_ok_iff, readDirectives_iff, readStyling_iff,
    readRendering_iff, readFallback_iff]
  constructor
  · rintro ⟨ms₁, h₁, _, hdirectives, ms₂, h₂, _, hstyling, ms₃, h₃, _, hrendering, ms₄, h₄, _,
      hidentifiers, rfl⟩
    exact ⟨⟨ms₁, h₁, hdirectives⟩, ⟨ms₂, h₂, hstyling⟩, ⟨ms₃, h₃, hrendering⟩, ms₄, h₄,
      hidentifiers⟩
  · rintro ⟨⟨ms₁, h₁, hdirectives⟩, ⟨ms₂, h₂, hstyling⟩, ⟨ms₃, h₃, hrendering⟩, ms₄, h₄,
      hidentifiers⟩
    exact ⟨ms₁, h₁, _, hdirectives, ms₂, h₂, _, hstyling, ms₃, h₃, _, hrendering, ms₄, h₄, _,
      hidentifiers, rfl⟩

/-- So is a configuration that is read from a setting. -/
theorem isConfig_of_ofSetting {s : Setting} {w : WideConfig} (h : ofSetting s = .ok w) :
    ∃ root, IsConfig root w := by
  unfold ofSetting at h
  split at h
  · exact ⟨_, ofMembers_iff.1 h⟩
  · cases h

/-! ## What is refused -/

section
variable {allowed : Fault → Prop}

theorem failsAs_toText {s : Setting} (h : s.isWritable = false → allowed .tooManyDigits) :
    FailsAs allowed s.toText := by
  unfold Setting.toText
  split
  · exact .ok _
  · rename_i hlong
    exact .error (h (Bool.eq_false_iff.2 hlong))

theorem failsAs_memberTexts {m : Setting × Setting}
    (h : m.1.isWritable = false ∨ m.2.isWritable = false → allowed .tooManyDigits) :
    FailsAs allowed (memberTexts m) :=
  (failsAs_toText fun hkey => h (.inl hkey)).bind fun _ _ =>
    (failsAs_toText fun hvalue => h (.inr hvalue)).bind fun _ _ => .ok _

theorem failsAs_passed {α : Type} {asked : Bool} {p : ConfigProblem} {rest : Except Fault α}
    (hasked : asked = true) (h : FailsAs allowed rest) :
    FailsAs allowed
      (if (!asked) = true then (do (refuse p : Except Fault PUnit); rest) else rest) := by
  rw [hasked]
  exact h

end

section
variable {allowed : Fault → Prop} {ms : Members} {key : String}

-- the members are part of a configuration that may be refused
variable (hconfig : ∀ p, allowed (.config p))
include hconfig

theorem failsAs_guard {α : Type} {asked : Bool} {p : ConfigProblem} {rest : Except Fault α}
    (h : FailsAs allowed rest) :
    FailsAs allowed
      (if (!asked) = true then (do (refuse p : Except Fault PUnit); rest) else rest) := by
  cases asked with
  | false => exact .error (hconfig p)
  | true => exact h

theorem failsAs_sectionMembers : FailsAs allowed (sectionMembers ms key) := by
  unfold sectionMembers
  split
  · exact .ok _
  · exact .ok _
  · split
    · exact .ok _
    · exact .error (hconfig _)

theorem failsAs_textOr {default : WideText} : FailsAs allowed (textOr ms key default) := by
  unfold textOr
  split
  · exact .ok _
  · exact .ok _
  · exact .error (hconfig _)

theorem failsAs_readFallback : FailsAs allowed (readFallback ms) :=
  (failsAs_textOr hconfig).bind fun _ _ => failsAs_guard hconfig (.ok _)

-- and may have a number that is too long
variable (hlong : Setting.membersWritable ms = false → allowed .tooManyDigits)
include hlong

omit hconfig in
theorem allowed_of_member? {s : Setting} (hs : Setting.member? ms key = some s)
    (h : s.isWritable = false) : allowed .tooManyDigits := by
  refine hlong (Bool.eq_false_iff.2 fun hms => ?_)
  rw [Setting.isWritable_member? hs hms] at h
  cases h

theorem failsAs_switchOr {default : Bool} : FailsAs allowed (switchOr ms key default) := by
  unfold switchOr
  split
  · exact .ok _
  · exact .ok _
  · rename_i hs
    split
    · exact .error (hconfig _)
    · rename_i hnot
      exact .error (allowed_of_member? hlong hs (Bool.eq_false_iff.2 hnot))

theorem failsAs_textsOr {default : Entries WideText WideText} :
    FailsAs allowed (textsOr ms key default) := by
  unfold textsOr
  split
  · exact .ok _
  · exact .ok _
  · rename_i s _ hs
    split
    · rename_i inner hinner
      refine FailsAs.map (.mapM fun m hm => failsAs_memberTexts fun hlongPart => ?_) _
      refine allowed_of_member? hlong hs (Bool.eq_false_iff.2 fun hwritable => ?_)
      have hparts := Setting.membersWritable_iff.1
        (Setting.membersWritable_members? hinner hwritable) m hm
      simp [hparts] at hlongPart
    · exact .error (hconfig _)

theorem failsAs_wordsOr {default : List WideText} :
    FailsAs allowed (wordsOr ms key default) := by
  unfold wordsOr
  split
  · exact .ok _
  · exact .ok _
  · exact .ok _
  · rename_i s _ _ hs
    split
    · rename_i items hitems
      refine FailsAs.map (.mapM fun item hitem => failsAs_toText fun h => ?_) _
      refine allowed_of_member? hlong hs (Bool.eq_false_iff.2 fun hwritable => ?_)
      have hopened := Setting.isWritable_opened hwritable
      rw [hitems] at hopened
      rw [Setting.areWritable_iff.1 hopened item hitem] at h
      cases h
    · exact .error (hconfig _)

omit hconfig in
theorem failsAs_optionalText : FailsAs allowed (optionalText ms key) := by
  unfold optionalText
  split
  · exact .ok _
  · exact .ok _
  · exact (failsAs_toText (allowed_of_member? hlong ‹_›)).bind fun _ _ => .ok _

theorem failsAs_readDirectives : FailsAs allowed (readDirectives ms) :=
  (failsAs_textOr hconfig).bind fun _ _ => (failsAs_switchOr hconfig hlong).bind fun _ _ => .ok _

theorem failsAs_readStyling : FailsAs allowed (readStyling ms) :=
  (failsAs_switchOr hconfig hlong).bind fun _ _ =>
    (failsAs_textsOr hconfig hlong).bind fun _ _ => .ok _

theorem failsAs_readRendering : FailsAs allowed (readRendering ms) :=
  (failsAs_textOr hconfig).bind fun _ _ => failsAs_guard hconfig <|
    (failsAs_textOr hconfig).bind fun _ _ => (failsAs_textsOr hconfig hlong).bind fun _ _ =>
      (failsAs_wordsOr hconfig hlong).bind fun _ _ => (failsAs_textOr hconfig).bind fun _ _ =>
        (failsAs_optionalText hlong).bind fun _ _ => (failsAs_textOr hconfig).bind fun _ _ => .ok _

end

theorem membersWritable_sectionMembers {root ms : Members} {key : String}
    (h : sectionMembers root key = .ok ms) (hroot : Setting.membersWritable root = true) :
    Setting.membersWritable ms = true := by
  unfold sectionMembers at h
  split at h
  · cases h
    rfl
  · cases h
    rfl
  · rename_i hs
    split at h
    · rename_i hms
      cases h
      exact Setting.membersWritable_members? hms (Setting.isWritable_member? hs hroot)
    · cases h

/-- Whatever is refused is refused as a configuration, or for a number that is too long. -/
theorem ofMembers_error {root : Members} {f : Fault} (h : ofMembers root = .error f) :
    (∃ p, f = .config p) ∨ f = .tooManyDigits ∧ Setting.membersWritable root = false := by
  let allowed : Fault → Prop := fun f =>
    (∃ p, f = .config p) ∨ f = .tooManyDigits ∧ Setting.membersWritable root = false
  have hconfig : ∀ p, allowed (.config p) := fun p => .inl ⟨p, rfl⟩
  have hlong : ∀ {key ms}, sectionMembers root key = .ok ms → Setting.membersWritable ms = false →
      allowed .tooManyDigits := by
    intro key ms hms hnot
    refine .inr ⟨rfl, Bool.eq_false_iff.2 fun hroot => ?_⟩
    rw [membersWritable_sectionMembers hms hroot] at hnot
    cases hnot
  have hfails : FailsAs allowed (ofMembers root) :=
    (failsAs_sectionMembers hconfig).bind fun _ h₁ =>
      (failsAs_readDirectives hconfig (hlong h₁)).bind fun _ _ =>
    (failsAs_sectionMembers hconfig).bind fun _ h₂ =>
      (failsAs_readStyling hconfig (hlong h₂)).bind fun _ _ =>
    (failsAs_sectionMembers hconfig).bind fun _ h₃ =>
      (failsAs_readRendering hconfig (hlong h₃)).bind fun _ _ =>
    (failsAs_sectionMembers hconfig).bind fun _ _ =>
      (failsAs_readFallback hconfig).bind fun _ _ => .ok _
  exact hfails f h

end Config

end RouteDocs
