import RouteDocs.Config

/-!
# Reading a configuration

A configuration is read from the settings of a file, section by section: what
is not set keeps its default, and the first setting of a wrong type is refused.
What may be of any type is taken as it is shown, unless a number in it is too long
to be. `toSetting` writes a configuration back.
-/
namespace RouteDocs.Config

open Text

/-- The members of a mapping of settings. -/
abbrev Members := List (Setting × Setting)

def refuse {α : Type} (p : ConfigProblem) : Except Fault α :=
  .error (.config p)

/-- The members of a section; one that is absent or null has none. Mirrors `_section`. -/
def sectionMembers (root : Members) (key : String) : Except Fault Members :=
  match Setting.member? root key with
  | none => .ok []
  | some .null => .ok []
  | some s =>
    match s.members? with
    | some members => .ok members
    | none => refuse (.sectionNotMapping key)

/-- A setting that must be a text if it is present. Mirrors `_require_str`. -/
def textOr (members : Members) (key : String) (default : WideText) : Except Fault WideText :=
  match Setting.member? members key with
  | none => .ok default
  | some (.text s) => .ok s
  | some s => refuse (.notText key s)

/-- A setting that must be true or false if it is present. Mirrors `_require_bool`. -/
def switchOr (members : Members) (key : String) (default : Bool) : Except Fault Bool :=
  match Setting.member? members key with
  | none => .ok default
  | some (.bool b) => .ok b
  | some s => if s.isWritable then refuse (.notSwitch key s) else .error .tooManyDigits

/-- The key and the value of a member as they are shown. -/
def memberTexts (m : Setting × Setting) : Except Fault (WideText × WideText) := do
  let k ← m.1.toText
  let v ← m.2.toText
  return (k, v)

/-- A setting that must be a mapping if it is present and not null: its keys and values as they are
shown. Mirrors `_string_mapping`. -/
def textsOr (members : Members) (key : String) (default : Entries WideText WideText) :
    Except Fault (Entries WideText WideText) :=
  match Setting.member? members key with
  | none => .ok default
  | some .null => .ok default
  | some s =>
    match s.members? with
    | some ms => (ms.mapM memberTexts).map Entries.ofPairs
    | none => refuse (.notMapping key)

/-- The texts of a list that are not blank, without the blanks around them. -/
def nonBlank (items : List WideText) : List WideText :=
  (items.map WideText.trim).filter (· ≠ [])

/-- A setting that must be a list, or a text of several words, if it is present and not null.
Mirrors `_string_tuple`. -/
def wordsOr (members : Members) (key : String) (default : List WideText) :
    Except Fault (List WideText) :=
  match Setting.member? members key with
  | none => .ok default
  | some .null => .ok default
  | some (.text s) => .ok (nonBlank s.words)
  | some s =>
    match s.opened with
    | .list items => (items.mapM Setting.toText).map nonBlank
    | _ => refuse (.notTextList key)

/-- A setting of any type as it is shown, without the blanks around it; none if that is empty.
Mirrors `_optional_str`. -/
def optionalText (members : Members) (key : String) : Except Fault (Option WideText) :=
  match Setting.member? members key with
  | none => .ok none
  | some .null => .ok none
  | some s => do
    let shown := (← s.toText).trim
    return if shown = [] then none else some shown

def occursIn (part : WideText) : WideText → Bool
  | [] => part.isEmpty
  | c :: rest => part.isPrefixOf (c :: rest) || occursIn part rest

/-- The placeholder of a link template. -/
def placeholder : WideText := .ofString "\x7btarget\x7d"

/-- The configuration that holds when nothing is set. -/
def base : WideConfig :=
  let wide := WideText.ofString
  let wideEntries := fun es : Entries String String => es.map fun (k, v) => (wide k, wide v)
  let c := RouteDocs.Config.default
  { directives := ⟨wide c.directives.target, c.directives.strict⟩
    styling := ⟨c.styling.enabled, wideEntries c.styling.listClasses⟩
    rendering := {
      anchorPrefix := wide c.rendering.anchorPrefix
      podLinkTemplate := wide c.rendering.podLinkTemplate
      markers := wideEntries c.rendering.markers
      routeMethods := c.rendering.routeMethods.map wide
      sidebarSelector := wide c.rendering.sidebarSelector
      verbatimLanguage := c.rendering.verbatimLanguage.map wide
      highlightStyle := wide c.rendering.highlightStyle }
    fallbackPrefix := wide c.fallbackPrefix }

def readDirectives (ms : Members) : Except Fault (DirectiveRulesOf WideText) := do
  let target ← textOr ms "target" base.directives.target
  let strict ← switchOr ms "strict" base.directives.strict
  return ⟨target, strict⟩

def readStyling (ms : Members) : Except Fault (StylingConfigOf WideText) := do
  let enabled ← switchOr ms "enabled" base.styling.enabled
  let classes ← textsOr ms "list_classes" base.styling.listClasses
  return ⟨enabled, classes⟩

/-- The section about rendering. The link template is looked at before the other settings. Mirrors
`_build_render_config`. -/
def readRendering (ms : Members) : Except Fault (RenderConfigOf WideText) := do
  let base := base.rendering
  let template ← textOr ms "pod_link_template" base.podLinkTemplate
  if !occursIn placeholder template then
    refuse .noPlaceholder
  let anchorPrefix ← textOr ms "anchor_prefix" base.anchorPrefix
  let markers ← textsOr ms "markers" base.markers
  let methods ← wordsOr ms "route_methods" base.routeMethods
  let selector ← textOr ms "sidebar_selector" base.sidebarSelector
  let language ← optionalText ms "verbatim_language"
  let style ← textOr ms "pygments_style" base.highlightStyle
  return {
    anchorPrefix := anchorPrefix
    podLinkTemplate := template
    markers := markers
    routeMethods := methods
    sidebarSelector := selector
    verbatimLanguage := language
    highlightStyle := style }

/-- A prefix that starts with an ASCII letter. -/
def isFallback : WideText → Bool
  | c :: _ => c.isCharOf Char.isAlpha
  | [] => false

def readFallback (ms : Members) : Except Fault WideText := do
  let fallback ← textOr ms "fallback_prefix" base.fallbackPrefix
  if !isFallback fallback then
    refuse (.badFallback fallback)
  return fallback

/-- Read a configuration from the members of its file. -/
def ofMembers (root : Members) : Except Fault WideConfig := do
  let directives ← readDirectives (← sectionMembers root "directives")
  let styling ← readStyling (← sectionMembers root "styling")
  let rendering ← readRendering (← sectionMembers root "rendering")
  let fallback ← readFallback (← sectionMembers root "identifiers")
  return ⟨directives, styling, rendering, fallback⟩

/-- Read a configuration from settings, which must be a mapping. Mirrors `build_viewer_config`. -/
def ofSetting (s : Setting) : Except Fault WideConfig :=
  match s.members? with
  | some members => ofMembers members
  | none => .error .configNotSections

/-- Read a configuration of plain texts from a value. -/
def ofValue (v : Value) : Except Fault RouteDocs.Config := do
  let c ← ofSetting (Setting.ofValue v)
  match c.narrowed? with
  | some c => .ok c
  | none => .error .loneHalf

/-! ## Writing back -/

def textsSetting (es : Entries WideText WideText) : Setting :=
  .mapping (es.map fun (k, v) => (.text k, .text v))

/-- A mapping with textual keys as a setting. -/
def sectionSetting (members : List (String × Setting)) : Setting :=
  .mapping (members.map fun (k, v) => (Setting.ofText k, v))

/-- A configuration written back, every setting given. -/
def toSetting (c : WideConfig) : Setting :=
  sectionSetting [
    ("directives", sectionSetting [
      ("target", .text c.directives.target),
      ("strict", .bool c.directives.strict)]),
    ("styling", sectionSetting [
      ("enabled", .bool c.styling.enabled),
      ("list_classes", textsSetting c.styling.listClasses)]),
    ("rendering", sectionSetting [
      ("anchor_prefix", .text c.rendering.anchorPrefix),
      ("pod_link_template", .text c.rendering.podLinkTemplate),
      ("markers", textsSetting c.rendering.markers),
      ("route_methods", .list (c.rendering.routeMethods.map .text)),
      ("sidebar_selector", .text c.rendering.sidebarSelector),
      ("verbatim_language", match c.rendering.verbatimLanguage with
        | some s => .text s
        | none => .null),
      ("pygments_style", .text c.rendering.highlightStyle)]),
    ("identifiers", sectionSetting [
      ("fallback_prefix", .text c.fallbackPrefix)])]

end RouteDocs.Config
