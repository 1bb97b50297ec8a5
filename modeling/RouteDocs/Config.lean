import RouteDocs.Directive
import RouteDocs.Text.CodePoint

/-!
# Configuration

What can be set about directives, classes, rendering and identifiers, with the
values that hold when nothing is set. A configuration file can set wide texts
(`WideConfig`); documents are made with a configuration of plain texts.
-/
namespace RouteDocs

/-- The classes of parameter lists. -/
structure StylingConfigOf (τ : Type) where
  enabled : Bool
  listClasses : Entries τ τ
  deriving DecidableEq

/-- How documents are shown. -/
structure RenderConfigOf (τ : Type) where
  anchorPrefix : τ
  podLinkTemplate : τ
  markers : Entries τ τ
  routeMethods : List τ
  sidebarSelector : τ
  verbatimLanguage : Option τ
  highlightStyle : τ
  deriving DecidableEq

structure ConfigOf (τ : Type) where
  directives : DirectiveRulesOf τ
  styling : StylingConfigOf τ
  rendering : RenderConfigOf τ
  fallbackPrefix : τ
  deriving DecidableEq

/-- The classes of parameter lists, by texts. -/
abbrev StylingConfig := StylingConfigOf String

/-- How documents are shown, by texts. -/
abbrev RenderConfig := RenderConfigOf String

/-- A configuration of texts. -/
abbrev Config := ConfigOf String

/-- A configuration of wide texts. -/
abbrev WideConfig := ConfigOf Text.WideText

namespace StylingConfig

/-- The classes of the two kinds of parameter lists. -/
def defaultClasses : Entries String String :=
  [("Input", "input-params"), ("Output", "output-params")]

/-- The styling that holds when nothing is set. -/
def default : StylingConfig := ⟨true, defaultClasses⟩

end StylingConfig

/-- The rendering that holds when nothing is set. -/
def RenderConfig.default : RenderConfig where
  anchorPrefix := "#!/"
  podLinkTemplate := "https://metacpan.org/module/\x7btarget\x7d"
  markers := [("FIXME", "label-important"), ("TODO", "label-warning")]
  routeMethods := ["ANY", "GET", "POST", "PUT", "PATCH", "DELETE"]
  sidebarSelector := "#sidebar"
  verbatimLanguage := none
  highlightStyle := "monokai"

/-- The directives that hold when nothing is set. -/
def DirectiveRules.default : DirectiveRules := ⟨"docviewer", true⟩

/-- The configuration that holds when nothing is set. -/
def Config.default : Config :=
  ⟨DirectiveRules.default, StylingConfig.default, RenderConfig.default, "pod"⟩

namespace ConfigOf

variable {τ σ : Type}

/-- Entries with their keys and values turned into others. -/
def mapEntries (f : τ → Option σ) (es : Entries τ τ) : Option (Entries σ σ) :=
  es.mapM fun (k, v) => do return (← f k, ← f v)

/-- A configuration with its texts turned into others, if all of them can be. -/
def mapTexts? (f : τ → Option σ) (c : ConfigOf τ) : Option (ConfigOf σ) := do
  return {
    directives := ⟨← f c.directives.target, c.directives.strict⟩
    styling := ⟨c.styling.enabled, ← mapEntries f c.styling.listClasses⟩
    rendering := {
      anchorPrefix := ← f c.rendering.anchorPrefix
      podLinkTemplate := ← f c.rendering.podLinkTemplate
      markers := ← mapEntries f c.rendering.markers
      routeMethods := ← c.rendering.routeMethods.mapM f
      sidebarSelector := ← f c.rendering.sidebarSelector
      verbatimLanguage := ← match c.rendering.verbatimLanguage with
        | some s => (f s).map some
        | none => some none
      highlightStyle := ← f c.rendering.highlightStyle }
    fallbackPrefix := ← f c.fallbackPrefix }

end ConfigOf

/-- The configuration of plain texts, if no text holds a half. -/
def WideConfig.narrowed? (c : WideConfig) : Option Config :=
  c.mapTexts? Text.WideText.string?

end RouteDocs
