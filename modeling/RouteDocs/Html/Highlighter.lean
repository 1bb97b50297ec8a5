/-!
# Highlighters

Code is coloured by a highlighter, which knows some styles and some languages.
It is not part of the viewer: whatever it is, all that the viewer relies on is
that coloured code stands in a block which opens with a fixed tag.
-/
namespace RouteDocs.Html

def codeOpening : String := "<div class=\"codehilite\">"

class Highlighter where
  knowsStyle : String → Bool
  knowsLanguage : String → Bool
  /-- Code in a language, coloured in a style. -/
  highlight (style language code : String) : String
  opening_highlight (style language code : String) :
    codeOpening.toList <+: (highlight style language code).toList

/-- Whether there is a style of this name. A document names one of them. -/
def HighlightStyle.isKnown [Highlighter] (name : String) : Bool :=
  Highlighter.knowsStyle name

/-- The language of text that is not code. -/
def plainLanguage : String := "text"

/-- The language that code is coloured as, where another is asked for. -/
def Highlighter.languageFor [Highlighter] (language : String) : String :=
  if knowsLanguage language then language else plainLanguage

end RouteDocs.Html
