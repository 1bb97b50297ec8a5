import RouteDocs.Html.PlainHighlighter
import RouteDocs.Proofs.Dump
import RouteDocs.Proofs.Html.Desk
import RouteDocs.Proofs.Session.Partition
import RouteDocs.Proofs.Session.Shown
import RouteDocs.Proofs.Session.Stability

/-!
# Recovery from routes that cannot be made

A node of a route that cannot be shown stops the routes in its section. The
headings before it have been given anchors by then, from the first to the last
as if nothing had happened, and no other identifier was taken. So once all such
nodes are replaced, the routes come out as if they had been replaced beforehand.

Results:
* `anchorTops_replaced`: replaced nodes have no part in what the headings are given.
* `routes_of_stuck`: the routes fail for the first node that cannot be shown.
* `routes_of_repaired`: the routes of a page that is repaired after a failure.
* `failed_routes_recover`: what a failure of the routes leaves, and that it can be mended.
-/
namespace RouteDocs

/-! ## Nodes in place of others -/

/-- A row of nodes with others in the place of some. -/
def replaced (new : Nat → Option Node) (ns : List Node) : List Node :=
  ns.mapIdx fun i n => (new i).getD n

theorem replaced_cons (new : Nat → Option Node) (n : Node) (rest : List Node) :
    replaced new (n :: rest) = (new 0).getD n :: replaced (fun i => new (i + 1)) rest :=
  List.mapIdx_cons

theorem replaced_append (new : Nat → Option Node) (ns ms : List Node) :
    replaced new (ns ++ ms) = replaced new ns ++ replaced (fun i => new (i + ns.length)) ms :=
  List.mapIdx_append

theorem length_replaced (new : Nat → Option Node) (ns : List Node) :
    (replaced new ns).length = ns.length :=
  List.length_mapIdx

theorem mem_replaced {new : Nat → Option Node} {ns : List Node} {m : Node}
    (h : m ∈ replaced new ns) : m ∈ ns ∨ ∃ i, new i = some m := by
  obtain ⟨i, hi, rfl⟩ := List.mem_mapIdx.1 h
  cases hnew : new i with
  | none => exact .inl (List.getElem_mem hi)
  | some m => exact .inr ⟨i, hnew⟩

/-- What is replaced, and what replaces it, starts and ends no section. -/
structure Spares (new : Nat → Option Node) (ns : List Node) : Prop where
  old : ∀ i n, ns[i]? = some n → (new i).isSome = true → n.endsSection = false
  new : ∀ i m, new i = some m → m.endsSection = false

section
variable {new : Nat → Option Node} {n : Node} {rest : List Node}

theorem Spares.tail (h : Spares new (n :: rest)) : Spares (fun i => new (i + 1)) rest :=
  ⟨fun i m hm => h.old (i + 1) m hm, fun i m => h.new (i + 1) m⟩

/-- The first node stays, or neither it nor the one in its place starts or ends a section. -/
theorem Spares.head (h : Spares new (n :: rest)) :
    (new 0).getD n = n ∨ n.endsSection = false ∧ ((new 0).getD n).endsSection = false := by
  cases hnew : new 0 with
  | none => exact .inl rfl
  | some m => exact .inr ⟨h.old 0 n rfl (by rw [hnew]; rfl), h.new 0 m hnew⟩

end

namespace Document

open Heading (anchorTop anchorTops blockSlots)
open Html (Renderer)

/-! ## What the headings are given -/

/-- Replaced nodes have no part in what the headings are given. -/
theorem anchorTops_replaced {new : Nat → Option Node} {ns : List Node} (h : Spares new ns)
    (ids : Identifiers) :
    anchorTops ids (replaced new ns) =
      (replaced new (anchorTops ids ns).1, (anchorTops ids ns).2) := by
  induction ns generalizing new ids with
  | nil => rfl
  | cons n rest ih =>
    rw [replaced_cons, Heading.anchorTops_cons, Heading.anchorTops_cons, replaced_cons]
    cases hnew : new 0 with
    | none => rw [Option.getD_none, ih h.tail, Option.getD_none]
    | some m =>
      have hn := h.old 0 n rfl (by rw [hnew]; rfl)
      rw [Option.getD_some, Heading.anchorTop_other (Node.isA_head3_of_not_end hn),
        Heading.anchorTop_other (Node.isA_head3_of_not_end (h.new 0 m hnew)), ih h.tail,
        Option.getD_some]

theorem filled_replaced {new : Nat → Option Node} {ns : List Node}
    (hnew : ∀ i m, new i = some m → m.endsSection = false)
    (h : Slot.Filled Slot.tops (blockSlots true ns)) :
    Slot.Filled Slot.tops (blockSlots true (replaced new ns)) := by
  intro s hs htop
  obtain ⟨n, hn, hs⟩ := List.mem_flatMap.1 hs
  rcases mem_replaced hn with hn | ⟨i, hi⟩
  · exact h s (List.mem_flatMap.2 ⟨n, hn, hs⟩) htop
  · rw [Node.isA_head3_of_not_end (hnew i n hi), if_neg Bool.false_ne_true, if_pos rfl] at hs
    rw [Slot.tops, Heading.top_of_mem_slots hs] at htop
    cases htop

/-- Headings that had their anchors before other nodes were replaced keep them, and those behind
them get what they would have got. -/
theorem anchorTops_replaced_again {new : Nat → Option Node} {ns ms : List Node}
    (h : Spares new (ns ++ ms)) (ids : Identifiers) :
    anchorTops (anchorTops ids ns).2 (replaced new ((anchorTops ids ns).1 ++ ms)) =
      anchorTops ids (replaced new (ns ++ ms)) := by
  have hns : Spares new ns := ⟨fun i n hn => h.old i n <|
    (List.getElem?_append_left (List.getElem?_eq_some_iff.1 hn).1).trans hn, h.new⟩
  have hkept := Heading.anchorTops_of_filled
    (filled_replaced h.new (Heading.filled_anchorTops true ids ns)) (anchorTops ids ns).2
  rw [replaced_append, replaced_append, Heading.anchorTops_append, Heading.anchorTops_append, hkept,
    anchorTops_replaced hns, Heading.length_anchorTops]

/-! ## The failure -/

theorem mapsAttributes_scaffold (kind : String) (withHeading : Bool) :
    ∀ n ∈ Draft.scaffold kind withHeading, n.every Renderer.mapsAttributes = true := by
  intro n hn
  rcases List.mem_append.1 hn with hn | hn
  · split at hn
    · rw [List.mem_singleton.1 hn]
      rfl
    · cases hn
  · rw [List.mem_singleton.1 hn]
    decide

/-- HTML attributes with a class are a mapping. -/
theorem keepsClasses_mapsAttributes : Styling.KeepsClasses Renderer.mapsAttributes := by
  intro name as c as' _ hput
  rw [Renderer.mapsAttributes_iff, Renderer.htmlAttributes]
  obtain ⟨html, rfl⟩ := Styling.putClass?_eq_some hput
  exact .inr ⟨_, by rw [Entries.get?_put, if_pos rfl]⟩

/-- The cause for which a node cannot be shown, alone and in a section: there is nothing to show an
element by, or a number in the attributes is too long. -/
def FailsFor (n : Node) (routeSection : String) (alone within : Fault) : Prop :=
  (∃ element trail, alone = .unrenderable element trail none ∧
    within = .unrenderable element trail (some routeSection)) ∨
  n.every Node.writable = false ∧ alone = .tooManyDigits ∧ within = .tooManyDigits

/-- Where the configuration is the default, what cannot be shown fails for such a cause. -/
theorem error_of_not_shows {r : Renderer} {n : Node} (hr : r.config = RenderConfig.default)
    (hmaps : n.every Renderer.mapsAttributes = true) (h : ¬ r.Shows n) (routeSection : String) :
    ∃ f log, r.render [] n [] = .error f log ∧
      FailsFor n routeSection f (f.within routeSection) := by
  obtain ⟨config, fallback⟩ := r
  obtain rfl : config = RenderConfig.default := hr
  cases hrender : Renderer.render ⟨.default, fallback⟩ [] n [] with
  | ok page log => exact absurd (Renderer.shows_of_render hrender).1 h
  | error f log =>
    refine ⟨f, log, rfl, ?_⟩
    rcases Renderer.render_default_error fallback n hmaps [] hrender with hstuck | ⟨rfl, hlong⟩
    · obtain ⟨v, -, name, as, -, rfl⟩ :=
        (Renderer.render_finds _ n [] []).error f log hrender hstuck
      exact .inl ⟨_, _, rfl, rfl⟩
    · exact .inr ⟨hlong, rfl, rfl⟩

section
variable {d : Document}

theorem keyed_anchorTops (hd : d.Untouched) : Keyed (anchorTops d.ids d.draft.page.nodes).1 := by
  have hfresh := fresh_children
    (Heading.distinct_anchorRoutes (Slot.Distinct.of_empty d.ids (empty_pageSlots hd)))
    (Heading.filled_anchorRoutes d.ids d.tree)
  intro n hn h3
  obtain ⟨x, hx⟩ := hfresh.texts _ (List.mem_map_of_mem (List.mem_filter.2 ⟨hn, h3⟩))
  rw [hx]
  rfl

/-- Making the routes stops at the first node that cannot be shown. -/
theorem routes_of_stuck (hd : d.Untouched) {i : Nat} {h n : Node} {g : Fault} {log : List Notice}
    (hstuck : StuckAt d.renderer d.draft.page.nodes i h n)
    (hshown : ShowsRoutes d.renderer .start (d.draft.page.nodes.take i))
    (herror : d.renderer.render [] n [] = .error g log) :
    ∃ first rest log', d.draft.page.blocks = first ++ rest ∧
      let d' := d.progressed (Page.renew first (anchorTops d.ids (first.map (·.node))).1 ++ rest)
        (anchorTops d.ids (first.map (·.node))).2 log'
      routes d = .error (g.within h.flatten) d' ∧ d'.Halted (g.within h.flatten) := by
  have hlast : d.draft.page.nodes.take i ++ [n] = d.draft.page.nodes.take (i + 1) := by
    rw [List.take_add_one, hstuck.node]
    rfl
  have hfirst : (d.draft.page.blocks.take (i + 1)).map (·.node) =
      d.draft.page.nodes.take i ++ [n] := by
    rw [hlast, Page.nodes, List.map_take]
  have hkeyed : Keyed (anchorTops d.ids (d.draft.page.nodes.take i ++ [n])).1 := by
    have hall := keyed_anchorTops hd
    rw [← List.take_append_drop (i + 1) d.draft.page.nodes, Heading.anchorTops_append] at hall
    rw [hlast]
    exact fun m hm => hall m (List.mem_append_left _ hm)
  have hsection : (Place.start.afterAll (d.draft.page.nodes.take i ++ [n])).routeSection =
      some h.flatten := routeSection_eq_some_iff.2 ⟨h, hlast ▸ hstuck.opened, rfl⟩
  have hhalts := halts_anchorTops .start hkeyed hshown hsection herror
  rw [← hfirst] at hhalts
  have hsplit := (List.take_append_drop (i + 1) d.draft.page.blocks).symm
  obtain ⟨log', hroutes⟩ := routes_of_halts hd.clean.labelled hd.routes hsplit hhalts
  exact ⟨_, _, log', hsplit, hroutes⟩

end

/-! ## The repair -/

/-- Nodes to be put in the place of others: every node of a section that cannot be shown is
replaced, those that replace nodes can be shown, and neither starts or ends a section. -/
structure Repairs (r : Renderer) (ns : List Node) (new : Nat → Option Node) : Prop where
  spares : Spares new ns
  shown : ∀ i m, new i = some m → r.Shows m
  complete : ∀ i h n, StuckAt r ns i h n → (new i).isSome = true

def replace (new : Nat → Option Node) (d : Document) : Document :=
  d.withPage (d.draft.page.withNodes (replaced new d.draft.page.nodes))

section
variable {r : Renderer} {new : Nat → Option Node} {ns : List Node} {ids : Identifiers}

theorem length_replaced_nodes (new : Nat → Option Node) (p : Page) :
    (replaced new p.nodes).length = p.blocks.length := by
  rw [length_replaced, Page.nodes, List.length_map]

theorem nodes_replace (new : Nat → Option Node) (d : Document) :
    (d.replace new).draft.page.nodes = replaced new d.draft.page.nodes :=
  Page.nodes_withNodes (length_replaced_nodes new d.draft.page)

theorem wellLabelled_replace {d : Document} (h : d.draft.page.WellLabelled)
    (new : Nat → Option Node) : (d.replace new).draft.page.WellLabelled :=
  Page.wellLabelled_renew h (length_replaced_nodes new d.draft.page)

/-- Where every node that cannot be shown is replaced by one that can be, all can be. Replaced nodes
may change the subsection of those behind them, but not the section. -/
theorem showsRoutes_replaced {p q : Place} (hsame : p.routeSection = q.routeSection)
    (hspares : Spares new ns) (hnew : ∀ i m, new i = some m → r.Shows m)
    (hold : ∀ i n, ns[i]? = some n → new i = none →
      (q.afterAll (ns.take (i + 1))).routeSection.isSome = true → r.Shows n) :
    ShowsRoutes r p (replaced new ns) := by
  induction ns generalizing new p q with
  | nil => trivial
  | cons n rest ih =>
    have hafter : (p.after ((new 0).getD n)).routeSection = (q.after n).routeSection := by
      rcases hspares.head with heq | ⟨hn, hm⟩
      · rw [heq, Place.routeSection_after_congr hsame]
      · rw [Place.routeSection_after hm, Place.routeSection_after hn, hsame]
    rw [replaced_cons]
    refine ⟨fun hsome => ?_, ih hafter hspares.tail (fun i => hnew (i + 1)) fun i m hm =>
      hold (i + 1) m hm⟩
    rw [hafter] at hsome
    cases hfirst : new 0 with
    | none => exact hold 0 n rfl hfirst hsome
    | some m => exact hnew 0 m hfirst

theorem Repairs.showsRoutes (h : Repairs r ns new) : ShowsRoutes r .start (replaced new ns) := by
  refine showsRoutes_replaced rfl h.spares h.shown fun i n hn hnone hsome => ?_
  refine shows_of_not_stuck hn hsome fun h' hstuck => ?_
  have hreplaced := h.complete i h' n hstuck
  rw [hnone] at hreplaced
  cases hreplaced

theorem keyed_replaced (h : Spares new ns) (hkeyed : Keyed (anchorTops ids ns).1) :
    Keyed (anchorTops ids (replaced new ns)).1 := by
  rw [anchorTops_replaced h]
  intro m hm h3
  rcases mem_replaced hm with hm | ⟨i, hi⟩
  · exact hkeyed m hm h3
  · rw [Node.isA_head3_of_not_end (h.new i m hi)] at h3
    cases h3

/-- Where all nodes of sections can be shown, documents that anchor their nodes alike have the same
routes. -/
theorem exists_routes (hkeyed : Keyed (anchorTops ids ns).1) (hshown : ShowsRoutes r .start ns) :
    ∃ rs, ∀ d : Document, d.draft.page.WellLabelled → d.madeRoutes = none → d.renderer = r →
      anchorTops d.ids d.draft.page.nodes = anchorTops ids ns →
      ∃ d', routes d = .ok rs d' ∧ d'.draft.page.nodes = (anchorTops ids ns).1 ∧
        d'.ids = (anchorTops ids ns).2 := by
  obtain ⟨rs, hgroup⟩ := group_isSome [] .start hkeyed hshown
  refine ⟨rs, fun d hlabels hnone hrenderer htops => ?_⟩
  obtain ⟨log, hgroup⟩ := hgroup d.log
  rw [← htops, ← hrenderer] at hgroup
  obtain ⟨d', hroutes⟩ := routes_of_group hlabels hnone hgroup
  refine ⟨d', hroutes, ?_⟩
  obtain ⟨log', -, rfl⟩ := routes_of_none hlabels hnone hroutes
  rw [← htops]
  exact ⟨congrArg Node.children (tree_routed d rs log'), rfl⟩

/-- Once repaired, a document whose routes were made up to some block has the routes that it would
have had if it had been repaired beforehand. -/
theorem routes_of_repaired {d : Document} (hd : d.Untouched) {first rest : List Block}
    (hblocks : d.draft.page.blocks = first ++ rest)
    (hnew : Repairs d.renderer d.draft.page.nodes new) (log : List Notice) :
    let d' := d.progressed (Page.renew first (anchorTops d.ids (first.map (·.node))).1 ++ rest)
      (anchorTops d.ids (first.map (·.node))).2 log
    d'.draft.page.WellLabelled → ∃ rs d₁ d₂, routes (d'.replace new) = .ok rs d₁ ∧
      routes (d.replace new) = .ok rs d₂ ∧ d₁.draft.page.nodes = d₂.draft.page.nodes ∧
      d₁.ids = d₂.ids := by
  intro d' hlabels
  have hspares := hnew.spares
  have hnodes : d.draft.page.nodes = first.map (·.node) ++ rest.map (·.node) := by
    rw [Page.nodes, hblocks, List.map_append]
  have hlength := Heading.length_anchorTops d.ids (first.map (·.node))
  rw [List.length_map] at hlength
  have hnodes' : d'.draft.page.nodes =
      (anchorTops d.ids (first.map (·.node))).1 ++ rest.map (·.node) := by
    show (_ ++ _ : List Block).map _ = _
    rw [List.map_append, Page.map_node_renew hlength]
  have hagain : anchorTops d'.ids (replaced new d'.draft.page.nodes) =
      anchorTops d.ids (replaced new d.draft.page.nodes) := by
    rw [hnodes] at hspares
    rw [hnodes, hnodes']
    exact anchorTops_replaced_again hspares d.ids
  obtain ⟨rs, hroutes⟩ := exists_routes (keyed_replaced hspares (keyed_anchorTops hd))
    hnew.showsRoutes
  obtain ⟨d₁, hd₁, hnodes₁, hids₁⟩ := hroutes (d'.replace new) (wellLabelled_replace hlabels new)
    hd.routes (renderer_progressed (Heading.fallback_anchorTops d.ids _) _ log)
    (by rw [nodes_replace]; exact hagain)
  obtain ⟨d₂, hd₂, hnodes₂, hids₂⟩ := hroutes (d.replace new)
    (wellLabelled_replace hd.clean.labelled new) hd.routes rfl (by rw [nodes_replace]; rfl)
  exact ⟨rs, d₁, d₂, hd₁, hd₂, hnodes₁.trans hnodes₂.symm, hids₁.trans hids₂.symm⟩

end

/-! ## Asking again -/

section
variable {d : Document} {f : Fault}

theorem Halted.after_asked (hd : d.Halted f) (accesses : List Access) :
    (d.after (accesses.map .ask)).Halted f := by
  induction accesses generalizing d with
  | nil => exact hd
  | cons a rest ih => exact ih (hd.left_ask a)

/-- Asking for the routes over and over changes only what is noted. -/
theorem Halted.after_routes (hd : d.Halted f) (k : Nat) :
    ∃ log, d.after (List.replicate k (.ask .routes)) = { d with log := log } := by
  induction k generalizing d with
  | zero => exact ⟨d.log, rfl⟩
  | succ k ih =>
    obtain ⟨log, hroutes⟩ := hd.routes_eq
    have hleft : left (ask .routes) d = { d with log := log } := by
      rw [ask, left_bind, hroutes]
    obtain ⟨log', hafter⟩ := ih (hd.noted log)
    refine ⟨log', ?_⟩
    rw [List.replicate_succ]
    show (left (ask .routes) d).after _ = _
    rw [hleft, hafter]

end

end Document
end RouteDocs
