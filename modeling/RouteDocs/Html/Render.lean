import RouteDocs.Config
import RouteDocs.DefinitionList
import RouteDocs.Identifier
import RouteDocs.Notice
import RouteDocs.Styling
import RouteDocs.Html.Highlighter
import RouteDocs.Html.LinkTemplate
import RouteDocs.Html.Marker
import RouteDocs.Html.RouteLink
import RouteDocs.Html.Tag

/-!
# Rendering

A tree is shown as HTML, element by element. Text is escaped; marker words
become labels and references to routes become links. An element of an unknown
kind is shown by its first child, which is noted; one without children cannot
be shown, and the failure names the elements around it.
-/
namespace RouteDocs.Html

/-- What a rendering depends on besides the tree. Mirrors the state of `HtmlRenderer`. -/
structure Renderer where
  config : RenderConfig
  fallback : String
  [highlighter : Highlighter]

/-- A rendering: it notes what it met, and may fail. -/
abbrev Rendered (α : Type) := EStateM Fault (List Notice) α

/-- A rendering that notes nothing. -/
def quiet {α : Type} : Except Fault α → Rendered α
  | .ok a => pure a
  | .error f => throw f

def note (n : Notice) : Rendered Unit :=
  modify (· ++ [n])

namespace Renderer

/-- The identifier of the place that a text refers to. -/
def target (r : Renderer) (s : String) : String :=
  Identifier.normalize r.fallback s

/-- A text as HTML, with its labels and links. Mirrors `HtmlRenderer.text`. -/
def text (r : Renderer) (s : String) : Except Fault String := do
  let marked ← markAll r.config.markers (escapeChars true s.toList)
  return String.ofList
    (linkReferences r.config.routeMethods r.config.anchorPrefix r.target marked)

/-! ## Verbatim blocks -/

/-- The opening tag of a block of code in a language. -/
def codeOpeningTemplate (language : String) : String :=
  "<div class=\"codehilite\" data-language=\"" ++ escape true language ++ "\">"

/-- A block of code, coloured, that names its language. Mirrors `HtmlRenderer._verbatim`. -/
def codeBlock (r : Renderer) (language s : String) : Except Fault String := do
  let h := r.highlighter
  let ps ← Replacement.parts (codeOpeningTemplate language).toList
  let html := h.highlight r.config.highlightStyle (h.languageFor language) s
  return String.ofList (Replacement.replaceFirst codeOpening.toList ps html.toList)

/-! ## Links -/

def setAttribute? (as : Attributes) (key : String) : Option Value :=
  (Entries.get? as key).filter Value.isSet

def hasText (as : Attributes) (key s : String) : Bool :=
  match Entries.get? as key with
  | some (.text t) => t == s
  | _ => false

/-- The module or page that a link leads to. -/
def linkPage (r : Renderer) (as : Attributes) : Except Fault String :=
  match setAttribute? as "to" with
  | none => .ok ""
  | some v => do
    let shown ← v.toText
    if hasText as "type" "pod" then LinkTemplate.fill r.config.podLinkTemplate shown
    else .ok shown

/-- The place on the page that a link leads to. -/
def linkPlace (r : Renderer) (as : Attributes) : Except Fault String :=
  match setAttribute? as "section" with
  | none => .ok ""
  | some v => do
    let shown ← v.toText
    return "#" ++ r.target shown

def linkAddress (r : Renderer) (as : Attributes) : Except Fault String := do
  let page ← r.linkPage as
  let place ← r.linkPlace as
  return page ++ place

def linkAttributes (as : Attributes) (address : String) : Except Fault Value :=
  match Entries.get? as Styling.htmlAttributesKey with
  | none => .ok (.mapping [("href", .text address)])
  | some (.mapping html) => .ok (.mapping (Entries.put html "href" (.text address)))
  | some _ => .error .wrongType

/-! ## Elements -/

def htmlAttributes (as : Attributes) : Option Value :=
  Entries.get? as Styling.htmlAttributesKey

/-- The line feed inside the tags of an element that asks for one. -/
def innerLineFeed (as : Attributes) : String :=
  if ((Entries.get? as "line_feeds").any Value.isSet) then "\n" else ""

def wrap (tag : String) (html : Option Value) (as : Attributes) (body : Rendered String) :
    Rendered String := do
  let opening ← quiet (openingTag tag html)
  let inner ← body
  return opening ++ innerLineFeed as ++ inner ++ innerLineFeed as ++ closingTag tag

mutual

/-- A node as HTML. `trail` names the elements around it, outermost first. Mirrors
`HtmlRenderer.render` and the handlers of the kinds. -/
def render (r : Renderer) (trail : List String) : Node → Rendered String
  | .text s => quiet (r.text s)
  | .element name as cs =>
    let trail := trail ++ [name]
    match Kind.ofName? name with
    | some .document => renderAll r trail cs
    | some .head1 => do return "\n" ++ (← wrap "h1" (htmlAttributes as) as (renderAll r trail cs)) ++ "\n"
    | some .head2 => do return "\n" ++ (← wrap "h2" (htmlAttributes as) as (renderAll r trail cs)) ++ "\n"
    | some .head3 => do return "\n" ++ (← wrap "h3" (htmlAttributes as) as (renderAll r trail cs)) ++ "\n"
    | some .head4 => do return "\n" ++ (← wrap "h4" (htmlAttributes as) as (renderAll r trail cs)) ++ "\n"
    | some .paragraph => wrap "p" (htmlAttributes as) as (renderAll r trail cs)
    | some .italic => wrap "i" (htmlAttributes as) as (renderAll r trail cs)
    | some .bold => wrap "b" (htmlAttributes as) as (renderAll r trail cs)
    | some .code => wrap "code" (htmlAttributes as) as (renderAll r trail cs)
    | some .verbatim =>
      match r.config.verbatimLanguage.filter (· ≠ "") with
      | none => wrap "pre" (htmlAttributes as) as (renderAll r trail cs)
      | some language => quiet (r.codeBlock language (Node.flattenAll cs))
    | some .definitionList => do
      let opening ← quiet (openingTag "dl" (htmlAttributes as))
      let inner ← renderTerms r trail false cs
      return opening ++ "\n" ++ inner ++ "\n</dl>\n"
    | some .link => do
      let address ← quiet (r.linkAddress as)
      let html ← quiet (linkAttributes as address)
      wrap "a" (some html) as (renderAll r trail cs)
    | some .term | some .directive | some .data | none =>
      match cs with
      | [] => throw (.unrenderable name trail none)
      | c :: _ => do
        note (.unrecognised name)
        render r trail c

def renderAll (r : Renderer) (trail : List String) : List Node → Rendered String
  | [] => return ""
  | n :: rest => do
    let first ← render r trail n
    let others ← renderAll r trail rest
    return first ++ others

/-- The children of a definition list as HTML; `opened` tells that a definition is open. What stands
before the first term is not shown. Mirrors `HtmlRenderer._definition_list`. -/
def renderTerms (r : Renderer) (trail : List String) (opened : Bool) : List Node → Rendered String
  | [] => return if opened then "</dd>" else ""
  | .text s :: rest =>
    if opened then do
      let first ← render r trail (.text s)
      let others ← renderTerms r trail true rest
      return first ++ others
    else renderTerms r trail false rest
  | .element name as cs :: rest =>
    if name = Kind.term.name then do
      let term ← wrap "dt" (htmlAttributes as) as (renderAll r trail cs)
      let others ← renderTerms r trail true rest
      return (if opened then "</dd>" else "") ++ term ++ "<dd>" ++ others
    else if opened then do
      let first ← render r trail (.element name as cs)
      let others ← renderTerms r trail true rest
      return first ++ others
    else renderTerms r trail false rest

end

/-- A node as HTML between tags of a given name, with its own HTML attributes unless others are
given. Mirrors `HtmlRenderer.tag`. -/
def tag (r : Renderer) (name : String) (html : Option Value) : Node → Rendered String
  | .text _ => throw .notAnElement
  | .element _ as cs => wrap name (html.or (htmlAttributes as)) as (renderAll r [] cs)

end Renderer
end RouteDocs.Html
