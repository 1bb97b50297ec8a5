import RouteDocs.Proofs.Fragments
import RouteDocs.Proofs.Session.Agreement
import RouteDocs.Proofs.Session.Holders

/-!
# Routes that cannot be made

Where a node of a route cannot be shown, making the routes stops at it. The
headings up to there have their anchors by then. So whatever is asked for next,
making the routes passes the same anchored headings, takes no further identifier
and stops at the same node for the same cause.

Results:
* `routesFrom_of_halts`: up to where the routes are made, and what is left there.
* `Halted.routes_eq`: routes that stopped stop again and leave everything as it is.
* `Halted.left_ask`: whatever is asked for, they still stop.
-/
namespace RouteDocs.Document

open Heading (anchorFound anchorFoundAll anchorTop anchorTops blockSlots)
open Html (Renderer)

/-! ## Up to the node that cannot be shown -/

/-- A node that belongs to a route goes into it. -/
def Passes (r : Renderer) (route : Option (Value × String)) (n : Node) : Prop :=
  ∀ key routeSection, route = some (key, routeSection) → key.isScalar = true ∧ r.Shows n

/-- A node belongs to a route and cannot be shown, and this is the cause. -/
def Stops (r : Renderer) (f : Fault) (route : Option (Value × String)) (n : Node) : Prop :=
  ∃ key routeSection g log, route = some (key, routeSection) ∧ key.isScalar = true ∧
    r.render [] n [] = .error g log ∧ f = g.within routeSection

/-- Nodes with their anchors that go into routes up to the last one, which stops them. -/
inductive Halts (r : Renderer) (f : Fault) : Option (Value × String) → List Node → Prop where
  | stop {current : Option (Value × String)} {n : Node} (h : Stops r f (routeAfter current n) n) :
      Halts r f current [n]
  | pass {current : Option (Value × String)} {n : Node} {rest : List Node}
      (h : Passes r (routeAfter current n) n) (hrest : Halts r f (routeAfter current n) rest) :
      Halts r f current (n :: rest)

theorem Halts.cases_cons {r : Renderer} {f : Fault} {current : Option (Value × String)} {n : Node}
    {rest : List Node} (h : Halts r f current (n :: rest)) :
    (rest = [] ∧ Stops r f (routeAfter current n) n) ∨
      Passes r (routeAfter current n) n ∧ Halts r f (routeAfter current n) rest := by
  cases h with
  | stop h => exact .inl ⟨rfl, h⟩
  | pass h hrest => exact .inr ⟨h, hrest⟩

/-- A failure is the same whatever was noted before. -/
theorem render_of_error {r : Renderer} {n : Node} {g : Fault} {log : List Notice}
    (h : r.render [] n [] = .error g log) (before : List Notice) :
    r.render [] n before = .error g (before ++ log) := by
  have happend := r.render_append [] [] n before []
  rw [h, List.append_nil, List.append_nil] at happend
  rw [happend, Html.Renderer.shifted, g.beneath_nil]

section
variable {d : Document} {current : Option (Value × String)} {before rest : List Block} {b : Block}

theorem routesFrom_of_passes (rs : Routes) (hlabels : d.draft.page.WellLabelled)
    (hblocks : d.draft.page.blocks = before ++ b :: rest)
    (h : Passes d.renderer (routeAfter current (anchorTop d.ids b.node).1)
      (anchorTop d.ids b.node).1) (bs : List Block) :
    ∃ rs' log, routesFrom current rs (b :: bs) d =
      routesFrom (routeAfter current (anchorTop d.ids b.node).1) rs' bs
        (d.progressed (before ++ ⟨b.label, (anchorTop d.ids b.node).1⟩ :: rest)
          (anchorTop d.ids b.node).2 log) := by
  rw [routesFrom_cons current rs hlabels hblocks bs]
  dsimp only
  cases hroute : routeAfter current (anchorTop d.ids b.node).1 with
  | none => exact ⟨rs, d.log, rfl⟩
  | some route =>
    obtain ⟨key, routeSection⟩ := route
    obtain ⟨hkey, hshows⟩ := h key routeSection hroute
    obtain ⟨log, hrender⟩ := Html.Renderer.render_of_shows hshows [] d.log
    simp only [hkey, if_true, hrender]
    exact ⟨_, _, rfl⟩

theorem routesFrom_of_stops {f : Fault} (rs : Routes) (hlabels : d.draft.page.WellLabelled)
    (hblocks : d.draft.page.blocks = before ++ b :: rest)
    (h : Stops d.renderer f (routeAfter current (anchorTop d.ids b.node).1)
      (anchorTop d.ids b.node).1) (bs : List Block) :
    ∃ log, routesFrom current rs (b :: bs) d =
      .error f (d.progressed (before ++ ⟨b.label, (anchorTop d.ids b.node).1⟩ :: rest)
        (anchorTop d.ids b.node).2 log) := by
  obtain ⟨key, routeSection, g, log, hroute, hkey, hrender, rfl⟩ := h
  rw [routesFrom_cons current rs hlabels hblocks bs]
  simp only [hroute, hkey, if_true, render_of_error hrender]
  exact ⟨_, rfl⟩

/-- Routes are made up to the block that stops them. The blocks up to there have their anchors then,
and the others are as they were. -/
theorem routesFrom_of_halts {f : Fault} {first : List Block} (rs : Routes)
    (hlabels : d.draft.page.WellLabelled)
    (hblocks : d.draft.page.blocks = before ++ (first ++ rest))
    (h : Halts d.renderer f current (anchorTops d.ids (first.map (·.node))).1) :
    ∃ log, routesFrom current rs (first ++ rest) d =
      .error f (d.progressed
        (before ++ (Page.renew first (anchorTops d.ids (first.map (·.node))).1 ++ rest))
        (anchorTops d.ids (first.map (·.node))).2 log) := by
  induction first generalizing d current rs before with
  | nil => cases h
  | cons b first ih =>
    rw [List.cons_append] at hblocks ⊢
    rw [List.map_cons, Heading.anchorTops_cons] at h ⊢
    rw [Page.renew_cons, List.cons_append]
    rcases h.cases_cons with ⟨hnil, hstops⟩ | ⟨hpasses, hrest⟩
    · obtain rfl : first = [] := by
        have hlength := congrArg List.length hnil
        rw [Heading.length_anchorTops, List.length_map] at hlength
        exact List.eq_nil_of_length_eq_zero hlength
      exact routesFrom_of_stops rs hlabels hblocks hstops rest
    · obtain ⟨rs', log, hpass⟩ := routesFrom_of_passes rs hlabels hblocks hpasses (first ++ rest)
      have hjoin := List.append_cons before ⟨b.label, (anchorTop d.ids b.node).1⟩
        (Page.renew first (anchorTops (anchorTop d.ids b.node).2 (first.map (·.node))).1 ++ rest)
      rw [hpass, hjoin]
      refine ih rs' (wellLabelled_progressed hlabels hblocks _ _ log) (List.append_cons ..) ?_
      rw [renderer_progressed (Heading.fallback_anchorTop d.ids b.node)]
      exact hrest

theorem routes_of_routesFrom_error {f : Fault} {d' : Document} (hnone : d.madeRoutes = none)
    (h : routesFrom none [] d.draft.page.blocks d = .error f d') : routes d = .error f d' := by
  rw [routes, bind_of_ok (get_apply d)]
  simp only [hnone]
  exact bind_of_error h _

end

/-! ## Documents whose routes stopped -/

section
variable {r : Renderer} {f : Fault} {current : Option (Value × String)} {n : Node} {ns : List Node}

theorem Passes.congr {m : Node} {route : Option (Value × String)} (h : Passes r route n)
    (hrender : r.render [] m = r.render [] n) : Passes r route m := fun key routeSection hroute =>
  ⟨(h key routeSection hroute).1, (h key routeSection hroute).2.congr hrender⟩

theorem Stops.congr {m : Node} {route : Option (Value × String)} (h : Stops r f route n)
    (hrender : r.render [] m = r.render [] n) : Stops r f route m := by
  rw [Stops, hrender]
  exact h

/-- The index gives anchors inside of nodes only, and these do not matter to the routes. -/
theorem Halts.anchorFoundAll (h : Halts r f current ns) (ids : Identifiers)
    (hfilled : Slot.Filled Slot.tops (blockSlots true ns)) :
    Halts r f current (anchorFoundAll ids ns).1 := by
  induction h generalizing ids with
  | stop h =>
    rw [← routeAfter_anchorFound_of_filled hfilled ids] at h
    exact .stop (h.congr (r.render_anchorFound [] ids _))
  | pass h _ ih =>
    rw [← routeAfter_anchorFound_of_filled hfilled ids] at h ih
    exact .pass (h.congr (r.render_anchorFound [] ids _)) (ih _ (Heading.filled_tail hfilled))

end

/-- The routes of a document stop at one of its blocks, and the blocks up to there have their
anchors. -/
structure Halted (d : Document) (f : Fault) : Prop where
  labelled : d.draft.page.WellLabelled
  routes : d.madeRoutes = none
  blocks : ∃ first rest, d.draft.page.blocks = first ++ rest ∧
    Slot.Filled Slot.tops (blockSlots true (first.map (·.node))) ∧
    Halts d.renderer f none (first.map (·.node))

section
variable {d : Document} {f : Fault}

/-- Where routes are first made and stop, they leave a document whose routes stop. -/
theorem routes_of_halts {first rest : List Block} (hlabels : d.draft.page.WellLabelled)
    (hnone : d.madeRoutes = none) (hblocks : d.draft.page.blocks = first ++ rest)
    (h : Halts d.renderer f none (anchorTops d.ids (first.map (·.node))).1) :
    ∃ log,
      let d' := d.progressed (Page.renew first (anchorTops d.ids (first.map (·.node))).1 ++ rest)
        (anchorTops d.ids (first.map (·.node))).2 log
      Document.routes d = .error f d' ∧ d'.Halted f := by
  obtain ⟨log, hroutes⟩ := routesFrom_of_halts [] hlabels (hblocks.trans (List.nil_append _).symm) h
  rw [← hblocks] at hroutes
  have hlength := Heading.length_anchorTops d.ids (first.map (·.node))
  rw [List.length_map] at hlength
  have hnodes := Page.map_node_renew hlength
  refine ⟨log, routes_of_routesFrom_error hnone hroutes, ?_, hnone, _, rest, rfl, ?_, ?_⟩
  · have hall : ((anchorTops d.ids (first.map (·.node))).1 ++ rest.map (·.node)).length =
        d.draft.page.blocks.length := by
      rw [hblocks, List.length_append, List.length_append, List.length_map, hlength]
    have hrenew := Page.wellLabelled_renew hlabels hall
    rwa [hblocks, Page.renew_append hlength, Page.renew_self] at hrenew
  · rw [hnodes]
    exact Heading.filled_anchorTops true d.ids _
  · rw [hnodes, renderer_progressed (Heading.fallback_anchorTops d.ids _)]
    exact h

namespace Halted

/-- They stop again, and only what is noted changes. -/
theorem routes_eq (hd : d.Halted f) :
    ∃ log, Document.routes d = .error f { d with log := log } := by
  obtain ⟨first, rest, hblocks, hfilled, hhalts⟩ := hd.blocks
  have htops := Heading.anchorTops_of_filled hfilled d.ids
  obtain ⟨log, hroutes, -⟩ := routes_of_halts hd.labelled hd.routes hblocks (by rwa [htops])
  rw [htops, Page.renew_self, ← hblocks] at hroutes
  exact ⟨log, hroutes⟩

theorem noted (hd : d.Halted f) (log : List Notice) : Halted { d with log := log } f :=
  ⟨hd.labelled, hd.routes, hd.blocks⟩

theorem identified (hd : d.Halted f) : d.identified.2.Halted f := by
  obtain ⟨-, hdraft, -, hroutes, -, -⟩ := identified_frame d
  have hrenderer := (sameSetting_identified d).renderer
  refine ⟨hdraft ▸ hd.labelled, hroutes.trans hd.routes, ?_⟩
  rw [hdraft, hrenderer]
  exact hd.blocks

theorem freshIndex (hd : d.Halted f) (id : String) : (d.freshIndex id).2.Halted f := by
  obtain ⟨first, rest, hblocks, hfilled, hhalts⟩ := hd.blocks
  refine ⟨wellLabelled_refresh_anchorFound hd.labelled d.ids, hd.routes, ?_⟩
  rw [(sameSetting_freshIndex d id).renderer]
  have htree : d.tree = .element d.draft.page.name d.draft.page.attributes d.draft.page.nodes := rfl
  have hafter : (d.freshIndex id).2.draft.page.blocks =
      Page.renew d.draft.page.blocks (anchorFound d.ids d.tree).1.children := rfl
  rw [hafter, htree]
  cases h : Html.Navigation.isHeading d.draft.page.name with
  | true =>
    obtain ⟨as', heq⟩ := Heading.anchorFound_heading h d.ids d.draft.page.attributes
      d.draft.page.nodes
    rw [heq]
    exact ⟨first, rest, (Page.renew_self _).trans hblocks, hfilled, hhalts⟩
  | false =>
    have hlength := Heading.length_anchorFoundAll d.ids (first.map (·.node))
    rw [List.length_map] at hlength
    have hfilled' := hfilled.fill Slot.all d.ids
    rw [Heading.fill_blockSlots_all] at hfilled'
    rw [Heading.anchorFound_other h, Node.children, Page.nodes, hblocks, List.map_append,
      Heading.anchorFoundAll_append, Page.renew_append hlength]
    refine ⟨_, _, rfl, ?_⟩
    rw [Page.map_node_renew hlength]
    exact ⟨hfilled', hhalts.anchorFoundAll d.ids hfilled⟩

theorem indexed (hd : d.Halted f) : d.indexed.2.Halted f := by
  rw [Document.indexed]
  cases d.madeIndex with
  | some s => exact hd
  | none => exact hd.identified.freshIndex _

/-- Whatever is asked for, the routes still stop. -/
theorem left_ask (hd : d.Halted f) (a : Access) : (left (ask a) d).Halted f := by
  cases a with
  | moduleId =>
    rw [ask, left_bind, moduleId_apply]
    exact hd.identified
  | routes =>
    obtain ⟨log, hroutes⟩ := hd.routes_eq
    rw [ask, left_bind, hroutes]
    exact hd.noted log
  | index =>
    rw [ask, left_bind, index_apply]
    exact hd.indexed

end Halted

end

end RouteDocs.Document
