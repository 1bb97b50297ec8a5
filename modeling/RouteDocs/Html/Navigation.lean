import RouteDocs.Anchor
import RouteDocs.Config
import RouteDocs.Html.Escape
import RouteDocs.Html.IndentedLines

/-!
# The navigation index

The index of a module is a list of groups. A heading of level one opens a
group, and each route after it is an entry of the group. Routes before the
first such heading stand in a group without a header. The header of the first
group, if it is the first of all headings, comes with a link to the whole
document.
-/
namespace RouteDocs.Html

/-- What an index depends on besides the headings. Mirrors the state of `NavigationIndexBuilder`. -/
structure Navigation where
  config : RenderConfig
  moduleId : String

namespace Navigation

/-- The heading that opens a group. -/
def isGroup (name : String) : Bool :=
  name == Kind.head1.name

/-- The headings of an index: those that open a group, and those of routes. -/
def isHeading (name : String) : Bool :=
  isGroup name || name == Kind.head3.name

/-! ## Methods -/

/-- The method at the head of a text, without regard to case, if a word ends after it. -/
def methodSize? (methods : List (List Char)) (before : Option Char) (s : List Char) : Option Nat :=
  if Text.isBoundary before s.head? then
    methods.findSome? fun m =>
      (Text.dropFolded? m s).bind fun rest =>
        let last := (s.take (s.length - rest.length)).getLast?.or before
        if Text.isBoundary last rest.head? then some (s.length - rest.length) else none
  else none

/-- A text with its first method set in italics. -/
def styleMethod (methods : List (List Char)) (before : Option Char) (s : List Char) : List Char :=
  match methodSize? methods before s with
  | some n => "<i>".toList ++ s.take n ++ "</i>".toList ++ s.drop n
  | none =>
    match s with
    | [] => []
    | c :: rest => c :: styleMethod methods (some c) rest

/-- The methods to look for; with none, the empty text. -/
def methodTexts (methods : List String) : List (List Char) :=
  if methods.isEmpty then [[]] else methods.map String.toList

/-! ## Lines -/

def routeListTag (nav : Navigation) : String :=
  "<ul class=\"collapse route-list " ++ nav.moduleId ++ "\">"

def foldAttributes (nav : Navigation) : String :=
  "data-toggle=\"collapse\" data-target=\"." ++ nav.moduleId ++ "\" data-parent=\"" ++
    escape true nav.config.sidebarSelector ++ "\""

def documentLink (nav : Navigation) : String :=
  "<a href=\"" ++ nav.config.anchorPrefix ++ nav.moduleId ++ "-pod\" " ++ nav.foldAttributes ++
    " id=\"" ++ nav.moduleId ++ "\" class=\"pod-link showpanel\">Full POD</a>"

def header (nav : Navigation) (n : Node) : String :=
  "<a href=\"" ++ nav.config.anchorPrefix ++ nav.moduleId ++ "\" " ++ nav.foldAttributes ++
    " class=\"sidebar-header\">" ++ escape false n.flatten ++ "</a>"

/-- The entry of a route that has its anchor: a text, or a value that the heading has brought along
and that can be written. Mirrors `_add_route_entry`. -/
def entry (nav : Navigation) (n : Node) : String :=
  let anchor := (Anchor.ofNode n).shown
  let route := escapeChars true n.flatten.toList
  let styled := styleMethod (methodTexts nav.config.routeMethods) none route
  "<li><a href=\"" ++ nav.config.anchorPrefix ++ anchor ++ "\" class=\"showpanel\" id=\"" ++
    anchor ++ "\" title=\"" ++ String.ofList route ++ "\">" ++ String.ofList styled ++ "</a></li>"

def opensGroup (n : Node) : Bool :=
  n.isA .head1

def firstLines (nav : Navigation) (n : Node) : List String :=
  if opensGroup n then ["<ul>", "<li>", nav.documentLink, nav.header n, nav.routeListTag]
  else ["<ul>", "<li>", nav.routeListTag, nav.entry n]

/-- The lines for a later heading. -/
def nextLines (nav : Navigation) (n : Node) : List String :=
  if opensGroup n then ["</ul>", "</li>", "<li>", nav.header n, nav.routeListTag]
  else [nav.entry n]

def lines (nav : Navigation) : List Node → List String
  | [] => []
  | n :: rest => nav.firstLines n ++ rest.flatMap nav.nextLines ++ ["</ul>", "</li>", "</ul>"]

def text (nav : Navigation) (headings : List Node) : String :=
  (IndentedLines.empty.add (nav.lines headings)).text

/-! ## Indexes -/

/-- The index of a tree, with the tree in which its routes have anchors. Mirrors
`NavigationIndexBuilder.build`. -/
def ofTree (nav : Navigation) (ids : Identifiers) (n : Node) : String × Node × Identifiers :=
  let (n, ids) := Anchor.ensureWithin isHeading (fun name => !isGroup name) ids n
  (nav.text (n.find isHeading), n, ids)

/-- Elements that are not the header of a group with their anchors, up to the first text. -/
def anchored (ids : Identifiers) : List Node → Option (List Node) × Identifiers
  | [] => (some [], ids)
  | .text _ :: _ => (none, ids)
  | n :: rest =>
    let (n, ids) := if opensGroup n then (n, ids) else Anchor.ensureNode ids n
    let (rest, ids) := anchored ids rest
    (rest.map (n :: ·), ids)

/-- The index of a list of headings; a text is no heading. Mirrors
`NavigationIndexBuilder.build_from`. -/
def ofHeadings (nav : Navigation) (ids : Identifiers) (headings : List Node) :
    Option String × Identifiers :=
  let (headings, ids) := anchored ids headings
  (headings.map nav.text, ids)

end Navigation
end RouteDocs.Html
