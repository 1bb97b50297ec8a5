import RouteDocs.Catalog
import RouteDocs.Notice

/-!
# Drafts

A draft is a page while it is worked on, with the catalog of its parameter
lists. The catalog is made when it is first asked for and then kept: it follows
the lists that the draft itself adds, and other edits only after `rebuild`.

`ensureList` makes sure that a section has a list of a kind. It looks through
the first section with the given heading and puts in what is missing: the list,
or the subsection heading with the list. A missing input subsection goes before
the output subsection, everything else to the end of its region.
-/
namespace RouteDocs

/-- A page with the catalog made of it, if it has been asked for. -/
structure Draft where
  page : Page
  made : Option Catalog

namespace Draft

/-- A page not yet looked at. -/
def ofPage (p : Page) : Draft := ⟨p, none⟩

/-- The catalog in force: the one made before, or the one of the page as it stands. -/
def catalog (d : Draft) : Catalog :=
  d.made.getD (Catalog.ofPage d.page)

def withCatalog (d : Draft) : Draft :=
  { d with made := some d.catalog }

/-- The label of the list filed under a place. Mirrors `SectionRegistry.lookup`. -/
def lookup (d : Draft) (p : Place) : Option Nat :=
  Entries.get? d.catalog p

/-- File a block under a place, unless one is filed there. Mirrors `SectionRegistry.register`. -/
def register (d : Draft) (p : Place) (l : Nat) : Draft :=
  { d with made := some (Entries.putNew d.catalog p l) }

/-- Forget the catalog, so that it is made of the page as it then stands. -/
def rebuild (d : Draft) : Draft :=
  { d with made := none }

/-! ## Finding the place for a list -/

/-- What has been passed on the way through a page. -/
inductive Passed where
  | nothing
  | sectionHeading
  | listHeading
  deriving DecidableEq

/-- Where a list is or belongs. -/
inductive Spot where
  | present (label : Nat)
  | missing (position : Nat) (withHeading : Bool)

/-- The list of a kind in a section, or the position where it belongs. -/
def locate (routeSection kind : String) : Passed → Nat → List Block → Spot
  | passed, position, [] => .missing position (passed != .listHeading)
  | .nothing, position, b :: rest =>
    if b.node.isA .head3 && b.node.flatten == routeSection then
      locate routeSection kind .sectionHeading (position + 1) rest
    else locate routeSection kind .nothing (position + 1) rest
  | .sectionHeading, position, b :: rest =>
    if b.node.endsSection then .missing position true
    else if b.node.isA .head4 then
      if b.node.flatten == kind then locate routeSection kind .listHeading (position + 1) rest
      else if kind == ListKind.input.label && b.node.flatten == ListKind.output.label then
        .missing position true
      else locate routeSection kind .sectionHeading (position + 1) rest
    else locate routeSection kind .sectionHeading (position + 1) rest
  | .listHeading, position, b :: rest =>
    if b.node.endsSection || b.node.isA .head4 then .missing position false
    else if b.node.isA .definitionList then .present b.label
    else locate routeSection kind .listHeading (position + 1) rest

/-- What is put in for a missing list. -/
def scaffold (kind : String) (withHeading : Bool) : List Node :=
  (if withHeading then [Node.newHeading 4 kind] else []) ++ [Node.newDefinitionList]

/-- The list of a kind in a section, put in if it is missing; with what was noted. Mirrors
`ensure_target`. -/
def ensureList (d : Draft) (routeSection kind : String) : Draft × Nat × List Notice :=
  let d := d.withCatalog
  let place : Place := ⟨some routeSection, some kind⟩
  match d.lookup place with
  | some l => (d, l, [])
  | none =>
    match locate routeSection kind .nothing 0 d.page.blocks with
    | .present l => (d.register place l, l, [])
    | .missing position withHeading =>
      let new := scaffold kind withHeading
      let l := d.page.nextLabel + new.length - 1
      let d := { d with page := d.page.insertAt position new }
      (d.register place l, l, [.inserted withHeading kind position])

end Draft
end RouteDocs
