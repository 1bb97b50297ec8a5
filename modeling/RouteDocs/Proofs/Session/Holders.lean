import RouteDocs.Proofs.Ledger
import RouteDocs.Proofs.Session.Order

/-!
# What a document hands out

A document hands out identifiers to itself, under the name of its module, and to
its headings of level three. Every access does that and nothing else to its
ledger, also one that fails on the way: making the routes gives the headings
their anchors one after the other, and what was given before a failure stays.

Results:
* `growth_ask`: each access makes the ledger grow.
* `growth_routesFrom`: so do routes that are made up to a failure.
-/
namespace RouteDocs

open Heading (anchorFound anchorFoundAll anchorTop)
open Html.Navigation (isHeading isGroup)
open Ledger (Grows)

namespace Page

theorem renew_self (bs : List Block) : renew bs (bs.map (·.node)) = bs := by
  induction bs with
  | nil => rfl
  | cons b rest ih => rw [List.map_cons, renew_cons, ih]

theorem refresh_nodes (p : Page) (name : String) (as : Attributes) :
    p.refresh (.element name as p.nodes) = { p with attributes := as } := by
  have hblocks : p.blocks.zipWith (fun b n => { b with node := n }) p.nodes = p.blocks :=
    renew_self p.blocks
  rw [refresh, withNodes, Node.children, hblocks, Node.attributes]

end Page

namespace Document

/-- Who can have an identifier: the module, the page if it is a heading of level three itself, and
the headings of level three in the blocks. A block is known by its label, on the page or aside, and
a heading by its address in the block. -/
inductive Holder where
  | module
  | page
  | heading (block : Nat) (path : List Nat)
  deriving DecidableEq

def entry (d : Document) : Holder → Option (String × Option Value)
  | .module => some (d.moduleName, d.madeModuleId.map .text)
  | .page =>
    if d.tree.isA .head3 then
      some (d.draft.page.name, Anchor.ofAttributes? d.draft.page.attributes)
    else none
  | .heading l path => (d.draft.page.node? l).bind (·.entryAt path)

def ledger (d : Document) : Ledger Holder :=
  ⟨d.entry, d.ids⟩

def held (d : Document) (a : Holder) : Option Value :=
  d.ledger.held a

theorem entry_page (d : Document) :
    d.entry .page =
      if Kind.ofName? d.draft.page.name = some .head3 then
        some (d.draft.page.name, Anchor.ofAttributes? d.draft.page.attributes)
      else none := by
  simp only [entry, tree, Page.toNode, Node.isA, Node.kind?, beq_iff_eq]

theorem held_heading (d : Document) (l : Nat) (path : List Nat) :
    d.held (.heading l path) = (d.draft.page.node? l).bind fun n => (n.entryAt path).bind (·.2) :=
  Option.bind_assoc ..

/-- One document is another with identifiers handed out, and its labels are in order. -/
structure Growth (d d' : Document) : Prop where
  ledger : Grows d.ledger d'.ledger
  labelled : d'.draft.page.WellLabelled

theorem Growth.trans {d₁ d₂ d₃ : Document} (h : Growth d₁ d₂) (h' : Growth d₂ d₃) : Growth d₁ d₃ :=
  ⟨h.ledger.trans h'.ledger, h'.labelled⟩

/-! ## One block -/

section
variable {d : Document} {before rest : List Block} {b : Block}

theorem growth_progressed (hlabels : d.draft.page.WellLabelled)
    (hblocks : d.draft.page.blocks = before ++ b :: rest) {n : Node} {ids : Identifiers}
    (h : Grows ⟨b.node.entryAt, d.ids⟩ ⟨n.entryAt, ids⟩) (log : List Notice) :
    Growth d (d.progressed (before ++ ⟨b.label, n⟩ :: rest) ids log) := by
  have hmodify := Page.modify_at hlabels hblocks fun _ => n
  have hnode : d.draft.page.node? b.label = some b.node := by
    rw [Page.node?_eq_some_iff hlabels, hblocks]
    simp
  have hentry : ∀ l path, (d.progressed (before ++ ⟨b.label, n⟩ :: rest) ids log).entry
      (.heading l path) =
        ((d.draft.page.modify b.label fun _ => n).node? l).bind (·.entryAt path) := by
    rw [hmodify]
    exact fun _ _ => rfl
  refine ⟨h.embed (Holder.heading b.label) rfl rfl ?_ ?_ ?_, ?_⟩
  · intro path
    show (d.draft.page.node? b.label).bind _ = _
    rw [hnode]
    rfl
  · intro path
    refine (hentry b.label path).trans ?_
    rw [Page.node?_modify, if_pos rfl, hnode]
    rfl
  · intro a ha
    cases a with
    | module => rfl
    | page => rfl
    | heading l path =>
      have hl : l ≠ b.label := fun hl => ha path (hl ▸ rfl)
      refine (hentry l path).trans ?_
      rw [Page.node?_modify, if_neg hl]
      rfl
  · exact wellLabelled_progressed hlabels hblocks n ids log

/-- Entering a block hands out at most the anchor of its heading. -/
theorem growth_anchorTop (hlabels : d.draft.page.WellLabelled)
    (hblocks : d.draft.page.blocks = before ++ b :: rest) (log : List Notice) :
    Growth d (d.progressed (before ++ ⟨b.label, (anchorTop d.ids b.node).1⟩ :: rest)
      (anchorTop d.ids b.node).2 log) := by
  refine growth_progressed hlabels hblocks ?_ log
  cases h3 : b.node.isA .head3 with
  | true =>
    rw [Heading.anchorTop_head3 h3]
    exact Heading.grows_anchorFound d.ids b.node
  | false =>
    rw [Heading.anchorTop_other h3]
    exact Grows.refl _

end

/-! ## The index -/

theorem growth_renew {d : Document} {before rest : List Block} (hlabels : d.draft.page.WellLabelled)
    (hblocks : d.draft.page.blocks = before ++ rest) (log : List Notice) :
    Growth d (d.progressed
      (before ++ Page.renew rest (anchorFoundAll d.ids (rest.map (·.node))).1)
      (anchorFoundAll d.ids (rest.map (·.node))).2 log) := by
  induction rest generalizing d before with
  | nil =>
    have hpage : d.draft.page = { d.draft.page with blocks := before ++ [] } := by rw [← hblocks]
    have hledger : (d.progressed (before ++ []) d.ids log).ledger = d.ledger := by
      rw [← hblocks]
      rfl
    refine ⟨hledger ▸ Grows.refl _, ?_⟩
    show ({ d.draft.page with blocks := before ++ [] } : Page).WellLabelled
    exact hpage ▸ hlabels
  | cons b rest ih =>
    have hfirst := growth_progressed hlabels hblocks (Heading.grows_anchorFound d.ids b.node) log
    have hblocks' : (d.progressed (before ++ ⟨b.label, (anchorFound d.ids b.node).1⟩ :: rest)
        (anchorFound d.ids b.node).2 log).draft.page.blocks =
          before ++ [⟨b.label, (anchorFound d.ids b.node).1⟩] ++ rest := List.append_cons ..
    have hrest := ih hfirst.labelled hblocks'
    rw [List.map_cons, Heading.anchorFoundAll_cons, Page.renew_cons, List.append_cons]
    exact hfirst.trans hrest

/-- A page that is a heading itself has at most its own anchor handed out. -/
theorem grows_page {d : Document} (h3 : d.tree.isA .head3 = true) (label : String) :
    Grows d.ledger (ledger { d.withPage { d.draft.page with
      attributes := (Anchor.ensure d.ids label d.draft.page.attributes).1 } with
      ids := (Anchor.ensure d.ids label d.draft.page.attributes).2 }) := by
  have hentry : ∀ as ids,
      entry { d.withPage { d.draft.page with attributes := as } with ids := ids } .page =
        some (d.draft.page.name, Anchor.ofAttributes? as) := fun _ _ => if_pos h3
  cases ha : Anchor.ofAttributes? d.draft.page.attributes with
  | some v =>
    rw [Anchor.ensure_of_some d.ids _ ha]
    exact Grows.refl _
  | none =>
    have hbefore : d.entry .page = some (d.draft.page.name, none) :=
      (hentry d.draft.page.attributes d.ids).trans (by rw [ha])
    rw [Anchor.ensure_of_none d.ids _ ha]
    refine Ledger.grows_of_give .page rfl hbefore ?_ ?_
    · exact (hentry _ _).trans (by rw [Anchor.ofAttributes?_put]; rfl)
    · intro a hpage
      cases a with
      | module => rfl
      | page => exact absurd rfl hpage
      | heading l path => rfl

/-- Making the index hands out the anchors of the headings that it finds. -/
theorem growth_freshIndex {d : Document} (hlabels : d.draft.page.WellLabelled) (id : String) :
    Growth d (d.freshIndex id).2 := by
  refine ⟨?_, wellLabelled_refresh_anchorFound hlabels d.ids⟩
  have hledger : ∀ n ids, anchorFound d.ids d.tree = (n, ids) → (d.freshIndex id).2.ledger =
      ledger { d.withPage (d.draft.page.refresh n) with ids := ids } := by
    intro n ids heq
    rw [freshIndex, heq]
    rfl
  have htree : d.tree = .element d.draft.page.name d.draft.page.attributes d.draft.page.nodes := rfl
  cases h : isHeading d.draft.page.name with
  | false =>
    rw [hledger _ _ (htree ▸ Heading.anchorFound_other h)]
    have hall := growth_renew hlabels (List.nil_append d.draft.page.blocks).symm d.log
    exact hall.ledger
  | true =>
    cases hgroup : isGroup d.draft.page.name with
    | true =>
      rw [hledger _ _ (htree ▸ Heading.anchorFound_group h hgroup), htree, Page.refresh_nodes]
      exact Grows.refl _
    | false =>
      have h3 : d.tree.isA .head3 = true := Heading.isA_element.2 (Heading.eq_head3 h hgroup)
      have hfound : anchorFound d.ids d.tree = _ :=
        (Heading.anchorFound_route h hgroup).trans (Anchor.ensureNode_element ..)
      rw [hledger _ _ hfound, Page.refresh_nodes]
      exact grows_page h3 _

theorem growth_identified {d : Document} (hlabels : d.draft.page.WellLabelled) :
    Growth d d.identified.2 := by
  cases h : d.madeModuleId with
  | some id =>
    rw [identified_of_some h]
    exact ⟨Grows.refl _, hlabels⟩
  | none =>
    have hbefore : d.entry .module = some (d.moduleName, none) := by rw [entry, h]; rfl
    rw [identified, h]
    refine ⟨Ledger.grows_of_give .module rfl hbefore rfl ?_, hlabels⟩
    intro a hmodule
    cases a with
    | module => exact absurd rfl hmodule
    | page => rfl
    | heading l path => rfl

theorem growth_indexed {d : Document} (hlabels : d.draft.page.WellLabelled) :
    Growth d d.indexed.2 := by
  cases h : d.madeIndex with
  | some s =>
    rw [indexed_of_some h]
    exact ⟨Grows.refl _, hlabels⟩
  | none =>
    have hnamed := growth_identified hlabels
    rw [indexed, h]
    exact hnamed.trans (growth_freshIndex hnamed.labelled _)

/-! ## The routes, up to a failure -/

/-- The document as an action leaves it, whether it succeeds or fails. -/
def left {α : Type} (x : Action α) (d : Document) : Document :=
  match x d with
  | .ok _ d => d
  | .error _ d => d

theorem left_bind {α β : Type} (x : Action α) (f : α → Action β) (d : Document) :
    left (x >>= f) d =
      match x d with
      | .ok a d => left (f a) d
      | .error _ d => d := by
  simp only [left, bind, EStateM.bind]
  cases x d <;> rfl

/-- What is handed out until the routes are made, or until that fails, is handed out. -/
theorem growth_routesFrom {d : Document} {before rest : List Block}
    (current : Option (Value × String)) (rs : Routes) (hlabels : d.draft.page.WellLabelled)
    (hblocks : d.draft.page.blocks = before ++ rest) :
    Growth d (left (routesFrom current rs rest) d) := by
  induction rest generalizing d current rs before with
  | nil => exact ⟨Grows.refl _, hlabels⟩
  | cons b rest ih =>
    have hfirst := growth_anchorTop hlabels hblocks
    have hrest := fun log current rs => (hfirst log).trans
      (ih current rs (hfirst log).labelled (List.append_cons ..))
    rw [left, routesFrom_cons current rs hlabels hblocks]
    dsimp only
    cases routeAfter current (anchorTop d.ids b.node).1 with
    | none => exact hrest d.log none rs
    | some route =>
      obtain ⟨key, routeSection⟩ := route
      cases hkey : key.isScalar with
      | false =>
        simp only [hkey]
        exact hfirst d.log
      | true =>
        simp only [hkey, if_true]
        cases d.renderer.render [] (anchorTop d.ids b.node).1 d.log with
        | ok s log => exact hrest log _ _
        | error f log => exact hfirst log

theorem growth_routes {d : Document} (hlabels : d.draft.page.WellLabelled) :
    Growth d (left routes d) := by
  cases h : d.madeRoutes with
  | some rs =>
    rw [left, routes_of_some h]
    exact ⟨Grows.refl _, hlabels⟩
  | none =>
    have hmade := growth_routesFrom none [] hlabels (List.nil_append _).symm
    rw [routes, left_bind]
    simp only [get_apply, h, left_bind]
    rw [left] at hmade
    cases hroutes : routesFrom none [] d.draft.page.blocks d with
    | ok rs d' =>
      rw [hroutes] at hmade
      exact ⟨hmade.ledger, hmade.labelled⟩
    | error f d' =>
      rw [hroutes] at hmade
      exact hmade

theorem growth_ask {d : Document} (hlabels : d.draft.page.WellLabelled) (a : Access) :
    Growth d (left (ask a) d) := by
  cases a with
  | moduleId =>
    rw [ask, left_bind, moduleId_apply]
    exact growth_identified hlabels
  | routes =>
    have hmade := growth_routes hlabels
    rw [left] at hmade
    rw [ask, left_bind]
    cases hroutes : routes d with
    | ok rs d' => rw [hroutes] at hmade; exact hmade
    | error f d' => rw [hroutes] at hmade; exact hmade
  | index =>
    rw [ask, left_bind, index_apply]
    exact growth_indexed hlabels

end Document
end RouteDocs
