import RouteDocs.ModuleName
import RouteDocs.Html.Navigation
import RouteDocs.Html.Render

/-!
# Documents

A document is a tree whose directives have been carried out and whose lists
have been styled, ready to be shown. Its module identifier, its routes and its
index are made when they are first asked for and then kept. Edits of the page
are seen by the routes and the index after `rebuild`; the module identifier
stays for good, and so do the anchors that headings have been given.
-/
namespace RouteDocs

/-- The keys of the routes with the HTML of the nodes of each, in order. -/
abbrev Routes := List (Value × List String)

namespace Routes

/-- Routes with one more node under a key. -/
def add : Routes → Value → String → Routes
  | [], key, html => [(key, [html])]
  | (k, htmls) :: rest, key, html =>
    if Value.sameKey k key then (k, htmls ++ [html]) :: rest else (k, htmls) :: add rest key html

end Routes

/-- A document, with what has been made of it and what has been noted on the way. Mirrors
`DocTree`. -/
structure Document where
  config : Config
  path : Option String
  ids : Identifiers
  draft : Draft
  log : List Notice
  madeModuleId : Option String
  madeRoutes : Option Routes
  madeIndex : Option String
  [highlighter : Html.Highlighter]

namespace Document

/-! ## Preparing a page -/

/-- Carry out the directives of a page and style its lists. -/
def prepare [Html.Highlighter] (c : Config) : Directive.Step Unit := do
  if !Html.HighlightStyle.isKnown c.rendering.highlightStyle then throw .unknownStyle
  let _ ← Directive.run c.directives
  if c.styling.enabled then
    let w ← get
    let (page, fault) := Styling.stylePage c.styling.listClasses none w.draft.page
    set ({ w with draft := { w.draft with page := page } } : Directive.Work)
    match fault with
    | some f => throw f
    | none => return
  else return

/-- Make a document of a page. `seed` are the identifiers in use on the same web page. Where that
fails, the page is as far as the preparation came. -/
def ofPage [Html.Highlighter] (c : Config) (path : Option String) (seed : List String) (p : Page) :
    Except (Fault × Directive.Work) Document :=
  match (prepare c).run ⟨Draft.ofPage p, []⟩ with
  | .error f w => .error (f, w)
  | .ok _ w => .ok {
      config := c
      path := path
      ids := Identifiers.ofSeed seed c.fallbackPrefix
      draft := w.draft
      log := w.log
      madeModuleId := none
      madeRoutes := none
      madeIndex := none }

/-! ## What is made of a document -/

/-- Something asked of a document. What was noted and handed out before a failure stays. -/
abbrev Action (α : Type) := EStateM Fault Document α

def tree (d : Document) : Node := d.draft.page.toNode

def withPage (p : Page) (d : Document) : Document :=
  { d with draft := { d.draft with page := p } }

/-- How the nodes of a document are shown. -/
def renderer (d : Document) : Html.Renderer :=
  { config := d.config.rendering, fallback := d.ids.fallback, highlighter := d.highlighter }

def html (n : Node) : Action String := fun d =>
  match (d.renderer.render [] n).run d.log with
  | .ok s log => .ok s { d with log := log }
  | .error f log => .error f { d with log := log }

def htmlWithin (routeSection : String) (n : Node) : Action String := fun d =>
  match (html n).run d with
  | .ok s d => .ok s d
  | .error f d => .error (f.within routeSection) d

/-- The name under which a document asks for its identifier. -/
def moduleName (d : Document) : String :=
  match d.path with
  | some path => ModuleName.ofPath path
  | none => "pod"

def moduleId : Action String := do
  let d ← get
  match d.madeModuleId with
  | some id => return id
  | none =>
    let (id, ids) := d.ids.allocate d.moduleName
    set { d with ids := ids, madeModuleId := some id }
    return id

/-- Give the heading in a block its anchor; the heading afterwards. -/
def anchorBlock (b : Block) : Action Node := do
  let d ← get
  let (n, ids) := Anchor.ensureNode d.ids b.node
  set { d.withPage (d.draft.page.modify b.label fun _ => n) with ids := ids }
  return n

/-- The route that a block belongs to, given that of the block before, and the block's node. A
route has a key and a section. -/
def enterBlock (current : Option (Value × String)) (b : Block) :
    Action (Option (Value × String) × Node) :=
  match b.node.kind? with
  | some .head1 | some .head2 => return (none, b.node)
  | some .head3 => do
    let n ← anchorBlock b
    return (some (Anchor.ofNode n, n.flatten), n)
  | _ => return (current, b.node)

/-- The routes with those of further blocks added. -/
def routesFrom (current : Option (Value × String)) (rs : Routes) : List Block → Action Routes
  | [] => return rs
  | b :: rest => do
    let (current, n) ← enterBlock current b
    match current with
    | none => routesFrom none rs rest
    | some (key, routeSection) =>
      if !key.isScalar then throw .wrongType
      let s ← htmlWithin routeSection n
      routesFrom (some (key, routeSection)) (rs.add key s) rest

/-- The routes. A heading of level three starts one, and it runs up to the next heading of level one
to three. Mirrors `DocTree.routes`. -/
def routes : Action Routes := do
  let d ← get
  match d.madeRoutes with
  | some rs => return rs
  | none =>
    let rs ← routesFrom none [] d.draft.page.blocks
    modify fun d => { d with madeRoutes := some rs }
    return rs

def index : Action String := do
  let d ← get
  match d.madeIndex with
  | some s => return s
  | none =>
    let id ← moduleId
    let d ← get
    let (s, n, ids) := Html.Navigation.ofTree ⟨d.config.rendering, id⟩ d.ids d.tree
    set { d.withPage (d.draft.page.refresh n) with ids := ids, madeIndex := some s }
    return s

/-- Forget the routes, the index and the catalog of lists, so that they are made of the page as it
then stands. Mirrors `DocTree.rebuild`. -/
def rebuild (d : Document) : Document :=
  { d with draft := d.draft.rebuild, madeRoutes := none, madeIndex := none }

/-- The list filed under a place. -/
def lookup (p : Place) : Action (Option Node) := do
  modify fun d => { d with draft := d.draft.withCatalog }
  let d ← get
  return (d.draft.lookup p).bind d.draft.page.node?

end Document
end RouteDocs
