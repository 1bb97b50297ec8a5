import RouteDocs.Proofs.Config.Reader
import RouteDocs.Proofs.Text.Blank

/-!
# The normal form of a configuration

What is accepted has been put in order: names of methods and of a language are
trimmed, and no text is mapped twice. A configuration in this form is written back
with every setting given, and reads back as it was.

Results:
* `member?_textKeyed`: settings under textual keys are found as entries are.
* `isNormal_of_isConfig`: an accepted configuration is in normal form.
* `ofSetting_toSetting`: a configuration in normal form is read back.
-/
namespace RouteDocs

open Text

/-! ## Settings under textual keys -/

namespace Setting

/-- Members under textual keys. -/
def textKeyed (ms : List (String × Setting)) : List (Setting × Setting) :=
  ms.map fun (k, v) => (ofText k, v)

theorem sameKey_ofText {k key : String} : sameKey (ofText k) (ofText key) = true ↔ k = key := by
  have htexts : sameKey (ofText k) (ofText key) = (WideText.ofString k == WideText.ofString key) := by
    rw [ofText, ofText, sameKey]
    · rfl
    · exact nofun
  rw [htexts, beq_iff_eq]
  refine ⟨fun h => ?_, congrArg _⟩
  have hstring := congrArg WideText.string? h
  rwa [WideText.string?_ofString, WideText.string?_ofString, Option.some.injEq] at hstring

theorem member?_cons (s v : Setting) (ms : List (Setting × Setting)) (key : String) :
    member? ((s, v) :: ms) key =
      if sameKey s (ofText key) = true then some v else member? ms key := by
  rw [member?, List.find?_cons]
  dsimp only
  cases sameKey s (ofText key) <;> rfl

/-- Settings under textual keys are found as entries are. -/
theorem member?_textKeyed (ms : List (String × Setting)) (key : String) :
    member? (textKeyed ms) key = Entries.get? ms key := by
  induction ms with
  | nil => rfl
  | cons m ms ih =>
    obtain ⟨k, v⟩ := m
    simp only [textKeyed] at ih ⊢
    simp only [List.map_cons, member?_cons, ih, sameKey_ofText, Entries.get?]

end Setting

namespace Config

/-! ## Normal forms -/

/-- A text that is not empty and has no blanks at its ends. -/
structure IsTrimmed (s : WideText) : Prop where
  nonempty : s ≠ []
  bareEnds : HasBareEnds (CodePoint.isCharOf isBlank) s

/-- A configuration whose names are trimmed, and which maps no text twice. -/
structure IsNormal (w : WideConfig) : Prop where
  classes : (Entries.keys w.styling.listClasses).Nodup
  template : occursIn placeholder w.rendering.podLinkTemplate = true
  markers : (Entries.keys w.rendering.markers).Nodup
  methods : ∀ m ∈ w.rendering.routeMethods, IsTrimmed m
  language : ∀ l ∈ w.rendering.verbatimLanguage, IsTrimmed l
  fallback : isFallback w.fallbackPrefix = true

theorem IsTrimmed.trim_eq {s : WideText} (h : IsTrimmed s) : s.trim = s :=
  trimWith_eq_self h.bareEnds

theorem isTrimmed_trim {s : WideText} (h : s.trim ≠ []) : IsTrimmed s.trim :=
  ⟨h, hasBareEnds_trimWith _ s⟩

theorem isTrimmed_of_mem_nonBlank {items : List WideText} {s : WideText} (h : s ∈ nonBlank items) :
    IsTrimmed s := by
  obtain ⟨hmem, hne⟩ := List.mem_filter.1 h
  obtain ⟨t, -, rfl⟩ := List.mem_map.1 hmem
  exact isTrimmed_trim (of_decide_eq_true hne)

theorem nonBlank_eq_self {items : List WideText} (h : ∀ s ∈ items, IsTrimmed s) :
    nonBlank items = items := by
  have htrim : items.map WideText.trim = items := by
    conv_rhs => rw [← List.map_id' items]
    exact List.map_congr_left fun s hs => (h s hs).trim_eq
  rw [nonBlank, htrim]
  exact List.filter_eq_self.2 fun s hs => decide_eq_true (h s hs).nonempty

section
variable {ms : Members} {key : String}

theorem nodup_of_textsOr {default es : Entries WideText WideText}
    (hdefault : (Entries.keys default).Nodup) (h : textsOr ms key default = .ok es) :
    (Entries.keys es).Nodup := by
  unfold textsOr at h
  split at h
  · cases h
    exact hdefault
  · cases h
    exact hdefault
  · split at h
    · obtain ⟨pairs, -, rfl⟩ := map_eq_ok h
      exact Entries.nodup_ofPairs pairs
    · cases h

theorem isTrimmed_of_wordsOr {default ss : List WideText} (hdefault : ∀ s ∈ default, IsTrimmed s)
    (h : wordsOr ms key default = .ok ss) : ∀ s ∈ ss, IsTrimmed s := by
  unfold wordsOr at h
  split at h
  · cases h
    exact hdefault
  · cases h
    exact hdefault
  · cases h
    exact fun s => isTrimmed_of_mem_nonBlank
  · split at h
    · obtain ⟨items, -, rfl⟩ := map_eq_ok h
      exact fun s => isTrimmed_of_mem_nonBlank
    · cases h

theorem isTrimmed_of_optionalText {t : Option WideText} (h : optionalText ms key = .ok t) :
    ∀ s ∈ t, IsTrimmed s := by
  unfold optionalText at h
  split at h
  · cases h
    exact nofun
  · cases h
    exact nofun
  · obtain ⟨shown, -, h⟩ := bind_eq_ok h
    obtain rfl := Except.ok.inj h
    intro s hs
    split at hs
    · cases hs
    · rename_i hne
      cases hs
      exact isTrimmed_trim hne

end

instance (s : WideText) : Decidable (IsTrimmed s) :=
  decidable_of_iff (s ≠ [] ∧ (∀ c ∈ s.head?, c.isCharOf isBlank = false) ∧
    ∀ c ∈ s.getLast?, c.isCharOf isBlank = false)
    ⟨fun ⟨hne, hfirst, hlast⟩ => ⟨hne, hfirst, hlast⟩,
      fun h => ⟨h.nonempty, h.bareEnds.first, h.bareEnds.last⟩⟩

/-- What holds when nothing is set is in normal form. -/
theorem isNormal_base : IsNormal base where
  classes := by decide
  template := by decide
  markers := by decide
  methods := by decide
  language := nofun
  fallback := by decide

/-- An accepted configuration is in normal form. -/
theorem isNormal_of_isConfig {root : Members} {w : WideConfig} (h : IsConfig root w) :
    IsNormal w := by
  obtain ⟨_, -, hstyling⟩ := h.styling
  obtain ⟨_, -, hrendering⟩ := h.rendering
  obtain ⟨_, -, hidentifiers⟩ := h.identifiers
  exact {
    classes := nodup_of_textsOr isNormal_base.classes hstyling.listClasses
    template := hrendering.holdsPlace
    markers := nodup_of_textsOr isNormal_base.markers hrendering.markers
    methods := isTrimmed_of_wordsOr isNormal_base.methods hrendering.methods
    language := isTrimmed_of_optionalText hrendering.language
    fallback := hidentifiers.letter }

/-! ## Reading what was written back -/

section
variable {ms : List (String × Setting)} {key : String}

theorem sectionMembers_sectionSetting {inner : List (String × Setting)}
    (h : Entries.get? ms key = some (sectionSetting inner)) :
    sectionMembers (Setting.textKeyed ms) key = .ok (Setting.textKeyed inner) := by
  rw [sectionMembers, Setting.member?_textKeyed, h]
  rfl

theorem textOr_text {default s : WideText} (h : Entries.get? ms key = some (.text s)) :
    textOr (Setting.textKeyed ms) key default = .ok s := by
  rw [textOr, Setting.member?_textKeyed, h]

theorem switchOr_bool {default b : Bool} (h : Entries.get? ms key = some (.bool b)) :
    switchOr (Setting.textKeyed ms) key default = .ok b := by
  rw [switchOr, Setting.member?_textKeyed, h]

theorem textsOr_textsSetting {default es : Entries WideText WideText}
    (h : Entries.get? ms key = some (textsSetting es)) (hes : (Entries.keys es).Nodup) :
    textsOr (Setting.textKeyed ms) key default = .ok es := by
  obtain ⟨members, hmembers, htexts⟩ :
      ∃ members, textsSetting es = .mapping members ∧ members.mapM memberTexts = .ok es :=
    ⟨_, rfl, by rw [List.mapM_map]; exact mapM_ok es⟩
  rw [textsOr, Setting.member?_textKeyed, h, hmembers]
  exact (congrArg (Except.map Entries.ofPairs) htexts).trans
    (congrArg Except.ok (Entries.ofPairs_eq_self hes))

theorem wordsOr_list {default ss : List WideText}
    (h : Entries.get? ms key = some (.list (ss.map .text))) (hss : ∀ s ∈ ss, IsTrimmed s) :
    wordsOr (Setting.textKeyed ms) key default = .ok ss := by
  have htexts : (ss.map Setting.text).mapM Setting.toText = .ok ss := by
    rw [List.mapM_map]
    exact mapM_ok ss
  rw [wordsOr, Setting.member?_textKeyed, h]
  exact (congrArg (Except.map nonBlank) htexts).trans (congrArg Except.ok (nonBlank_eq_self hss))

theorem optionalText_null (h : Entries.get? ms key = some .null) :
    optionalText (Setting.textKeyed ms) key = .ok none := by
  rw [optionalText, Setting.member?_textKeyed, h]

theorem optionalText_text {s : WideText} (h : Entries.get? ms key = some (.text s))
    (hs : IsTrimmed s) :
    optionalText (Setting.textKeyed ms) key = .ok (some s) := by
  rw [optionalText, Setting.member?_textKeyed, h]
  refine congrArg Except.ok ?_
  rw [Setting.shown, hs.trim_eq, if_neg hs.nonempty]

end

/-- A configuration in normal form that was written back is read as it was. -/
theorem ofSetting_toSetting {w : WideConfig} (h : IsNormal w) : ofSetting (toSetting w) = .ok w := by
  refine ofMembers_iff.2 ⟨?_, ?_, ?_, ?_⟩
  · exact ⟨_, sectionMembers_sectionSetting rfl, textOr_text rfl, switchOr_bool rfl⟩
  · exact ⟨_, sectionMembers_sectionSetting rfl, switchOr_bool rfl,
      textsOr_textsSetting rfl h.classes⟩
  · refine ⟨_, sectionMembers_sectionSetting rfl, textOr_text rfl, h.template, textOr_text rfl,
      textsOr_textsSetting rfl h.markers, wordsOr_list rfl h.methods, textOr_text rfl, ?_,
      textOr_text rfl⟩
    cases hlanguage : w.rendering.verbatimLanguage with
    | none => exact optionalText_null rfl
    | some l => exact optionalText_text rfl (h.language l hlanguage)
  · exact ⟨_, sectionMembers_sectionSetting rfl, textOr_text rfl, h.fallback⟩

end Config

end RouteDocs
