import RouteDocs.Page

/-!
# The catalog of parameter lists

A definition list at the top level of a page belongs to the headings above it:
a heading of level three opens a section, one of level four a subsection, and
one of level one or two closes both. The catalog files every such list under
its place; of lists with one place the first counts.
-/
namespace RouteDocs

/-- The section and the subsection in force at a place of a page. -/
structure Place where
  routeSection : Option String
  subsection : Option String
  deriving DecidableEq

namespace Place

/-- Before the first heading. -/
def start : Place := ⟨none, none⟩

def after (p : Place) (n : Node) : Place :=
  match n.kind? with
  | some .head1 => start
  | some .head2 => start
  | some .head3 => ⟨some n.flatten, none⟩
  | some .head4 => ⟨p.routeSection, some n.flatten⟩
  | _ => p

def afterAll (p : Place) (ns : List Node) : Place :=
  ns.foldl after p

end Place

/-- The labels of parameter lists by their places. Mirrors the entries of `SectionRegistry`. -/
abbrev Catalog := Entries Place Nat

namespace Catalog

def file (c : Catalog) (p : Place) (b : Block) : Catalog :=
  if b.node.isA .definitionList then Entries.putNew c p b.label else c

def fileAll (c : Catalog) (p : Place) : List Block → Catalog
  | [] => c
  | b :: rest => fileAll (file c p b) (p.after b.node) rest

def ofPage (p : Page) : Catalog :=
  fileAll [] Place.start p.blocks

end Catalog
end RouteDocs
