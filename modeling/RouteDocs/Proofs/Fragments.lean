import RouteDocs.Proofs.Html.Shift
import RouteDocs.Proofs.Routes

/-!
# Fragments of a page

The nodes of a page are cut into runs: a heading of level one, two or three
starts one, and it goes up to the next. The runs that a heading of level three
starts are the routes, and each route has the renderings of the nodes of its
run for fragments.

Results:
* `lead_append_runs`: a row of nodes is what stands before the first run, and then its runs.
* `group_eq`: grouping gives each route the renderings of its run.
* `routesFrom_of_group`: where the nodes can be grouped, the routes are made.
* `join_assembled`: the fragments of the routes and the other renderings, in order, are all
  renderings.
-/
namespace RouteDocs

/-! ## Runs -/

/-- A heading that ends the section before it, and the nodes up to the next. -/
structure Run where
  head : Node
  body : List Node

namespace Run

/-- The nodes of a run. -/
def nodes (u : Run) : List Node :=
  u.head :: u.body

/-- Whether a run is a route. -/
def isRoute (u : Run) : Bool :=
  u.head.isA .head3

end Run

/-- What stands before the first run. -/
def lead (ns : List Node) : List Node :=
  ns.takeWhile fun n => !n.endsSection

/-- The runs of a row of nodes. -/
def runs : List Node → List Run
  | [] => []
  | n :: rest => if n.endsSection then ⟨n, lead rest⟩ :: runs rest else runs rest

section
variable {n : Node} (rest : List Node)

theorem lead_cons_head (h : n.endsSection = true) : lead (n :: rest) = [] :=
  List.takeWhile_cons_of_neg (by simp [h])

theorem lead_cons_other (h : n.endsSection = false) : lead (n :: rest) = n :: lead rest :=
  List.takeWhile_cons_of_pos (by simp [h])

theorem runs_cons_head (h : n.endsSection = true) : runs (n :: rest) = ⟨n, lead rest⟩ :: runs rest := by
  rw [runs, if_pos h]

theorem runs_cons_other (h : n.endsSection = false) : runs (n :: rest) = runs rest := by
  rw [runs, if_neg (by simp [h])]

end

/-- A row of nodes is what stands before the first run, and then its runs. -/
theorem lead_append_runs (ns : List Node) : lead ns ++ (runs ns).flatMap Run.nodes = ns := by
  induction ns with
  | nil => rfl
  | cons n rest ih =>
    cases h : n.endsSection with
    | true =>
      rw [lead_cons_head rest h, runs_cons_head rest h, List.nil_append, List.flatMap_cons]
      exact congrArg (n :: ·) ih
    | false =>
      rw [lead_cons_other rest h, runs_cons_other rest h]
      exact congrArg (n :: ·) ih

/-- The routes of a row of nodes: the anchor of the heading of each, and what its nodes are shown
as. -/
def sections (shown : Node → String) (ns : List Node) : Routes :=
  ((runs ns).filter Run.isRoute).map fun u => (Anchor.ofNode u.head, u.nodes.map shown)

/-- What the nodes of runs are shown as, where those of the routes are taken from the routes, one
after the other. -/
def assembled (shown : Node → String) : List Run → Routes → List String
  | [], _ => []
  | u :: rest, rs =>
    if u.isRoute then
      match rs with
      | [] => assembled shown rest []
      | (_, fragments) :: rs => fragments ++ assembled shown rest rs
    else u.nodes.map shown ++ assembled shown rest rs

theorem assembled_sections (shown : Node → String) (us : List Run) :
    assembled shown us ((us.filter Run.isRoute).map fun u =>
      (Anchor.ofNode u.head, u.nodes.map shown)) = (us.flatMap Run.nodes).map shown := by
  induction us with
  | nil => rfl
  | cons u rest ih =>
    rw [List.flatMap_cons, List.map_append, ← ih, assembled.eq_def]
    cases h : u.isRoute with
    | true => simp only [h, if_true, List.filter_cons_of_pos h, List.map_cons]
    | false => simp only [h, Bool.false_eq_true, if_false, List.filter_cons_of_neg, not_false_eq_true]

/-- The fragments of the routes and the other renderings, in order, are all renderings. -/
theorem join_assembled (shown : Node → String) (ns : List Node) :
    (lead ns).map shown ++ assembled shown (runs ns) (sections shown ns) = ns.map shown := by
  rw [sections, assembled_sections, ← List.map_append, lead_append_runs]

section
variable (shown : Node → String) {n : Node} (rest : List Node)

theorem sections_head3 (h3 : n.isA .head3 = true) :
    sections shown (n :: rest) =
      (Anchor.ofNode n, shown n :: (lead rest).map shown) :: sections shown rest := by
  have hends : n.endsSection = true := Node.endsSection_iff.2 (.inr (.inr h3))
  have hroute : (⟨n, lead rest⟩ : Run).isRoute = true := h3
  rw [sections, runs_cons_head rest hends, List.filter_cons_of_pos hroute]
  rfl

theorem sections_other (h3 : n.isA .head3 = false) :
    sections shown (n :: rest) = sections shown rest := by
  cases hends : n.endsSection with
  | true => rw [sections, runs_cons_head rest hends, List.filter_cons_of_neg (by simp [Run.isRoute, h3]), sections]
  | false => rw [sections, runs_cons_other rest hends, sections]

end

/-! ## Renderings of nodes -/

namespace Html.Renderer

def shown (r : Renderer) (n : Node) : String :=
  match r.render [] n [] with
  | .ok page _ => page
  | .error .. => ""

def Shows (r : Renderer) (n : Node) : Prop :=
  ∃ log, r.render [] n [] = .ok (r.shown n) log

theorem render_of_shows {r : Renderer} {n : Node} (h : r.Shows n) (trail : List String)
    (log : List Notice) : ∃ log', r.render trail n log = .ok (r.shown n) log' :=
  (r.render_ok_iff trail n log _).2 h

theorem shows_of_render {r : Renderer} {n : Node} {trail : List String} {log log' : List Notice}
    {page : String} (h : r.render trail n log = .ok page log') : r.Shows n ∧ page = r.shown n := by
  obtain ⟨log₀, h₀⟩ := (r.render_ok_iff trail n log page).1 ⟨log', h⟩
  have hpage : r.shown n = page := by rw [shown, h₀]
  exact ⟨⟨log₀, hpage ▸ h₀⟩, hpage.symm⟩

/-- A node that is shown as another can be shown if the other can. -/
theorem Shows.congr {r : Renderer} {n m : Node} (hn : r.Shows n)
    (h : r.render [] m = r.render [] n) : r.Shows m := by
  rw [Shows, shown, h]
  exact hn

theorem renderAll_ok {r : Renderer} {trail : List String} {ns : List Node} {log log' : List Notice}
    {page : String} (h : r.renderAll trail ns log = .ok page log') :
    (∀ n ∈ ns, r.Shows n) ∧ page = String.join (ns.map r.shown) := by
  induction ns generalizing log page with
  | nil =>
    rw [renderAll] at h
    cases h
    exact ⟨nofun, rfl⟩
  | cons n rest ih =>
    rw [renderAll] at h
    obtain ⟨first, log₁, hfirst, h⟩ := bind_ok h
    obtain ⟨others, log₂, hothers, h⟩ := bind_ok h
    cases h
    obtain ⟨hn, rfl⟩ := shows_of_render hfirst
    obtain ⟨hrest, rfl⟩ := ih hothers
    exact ⟨List.forall_mem_cons.2 ⟨hn, hrest⟩, by rw [List.map_cons, String.join_cons]⟩

end Html.Renderer

/-! ## Grouping -/

namespace Document

open Heading (anchorFound anchorTop anchorTops)
open Html (Renderer)

/-- Routes to which those of further nodes may be added: the keys so far and the anchors of the
headings to come are texts, no two of them the same. -/
structure Fresh (rs : Routes) (ns : List Node) : Prop where
  texts : AllTexts (Entries.keys rs ++ (ns.filter (Node.isA .head3)).map Anchor.ofNode)
  nodup : (Entries.keys rs ++ (ns.filter (Node.isA .head3)).map Anchor.ofNode).Nodup

section
variable {rs : Routes} {n : Node} {rest : List Node}

theorem Fresh.other (h : Fresh rs (n :: rest)) (h3 : n.isA .head3 = false) : Fresh rs rest := by
  obtain ⟨htexts, hnodup⟩ := h
  rw [List.filter_cons_of_neg (by simp [h3])] at htexts hnodup
  exact ⟨htexts, hnodup⟩

theorem Fresh.last {key : String} {htmls : List String} (h : Fresh (rs ++ [(.text key, htmls)]) rest)
    (html : String) :
    Routes.add (rs ++ [(.text key, htmls)]) (.text key) html =
        rs ++ [(.text key, htmls ++ [html])] ∧
      Fresh (rs ++ [(.text key, htmls ++ [html])]) rest := by
  have hkeys : ∀ htmls : List String, Entries.keys (rs ++ [(.text key, htmls)]) =
      Entries.keys rs ++ [.text key] := fun _ => List.map_append
  obtain ⟨htexts, hnodup⟩ := h
  rw [hkeys] at htexts hnodup
  refine ⟨?_, by rw [hkeys]; exact htexts, by rw [hkeys]; exact hnodup⟩
  have hnew : Value.text key ∉ Entries.keys rs := fun hmem =>
    (List.nodup_append.1 (List.nodup_append.1 hnodup).1).2.2 _ hmem _ List.mem_cons_self rfl
  have hold : AllTexts (Entries.keys rs) := fun v hv =>
    htexts v (List.mem_append_left _ (List.mem_append_left _ hv))
  rw [add_append hold hnew, Routes.add, sameKey_text, beq_self_eq_true, if_pos rfl]

/-- The routes with a new one behind them. -/
theorem Fresh.head3 (h : Fresh rs (n :: rest)) (h3 : n.isA .head3 = true) :
    ∃ x, Anchor.ofNode n = .text x ∧ ∀ html,
      rs.add (.text x) html = rs ++ [(.text x, [html])] ∧ Fresh (rs ++ [(.text x, [html])]) rest := by
  obtain ⟨htexts, hnodup⟩ := h
  rw [List.filter_cons_of_pos h3, List.map_cons] at htexts hnodup
  obtain ⟨x, hx⟩ := htexts _ (List.mem_append_right _ List.mem_cons_self)
  rw [hx] at htexts hnodup
  have hnew : Value.text x ∉ Entries.keys rs := fun hmem =>
    (List.nodup_append.1 hnodup).2.2 _ hmem _ List.mem_cons_self rfl
  have hold : AllTexts (Entries.keys rs) := fun v hv => htexts v (List.mem_append_left _ hv)
  have hkeys : ∀ html, Entries.keys (rs ++ [(.text x, [html])]) = Entries.keys rs ++ [.text x] :=
    fun _ => List.map_append
  rw [List.append_cons] at htexts hnodup
  exact ⟨x, hx, fun html => ⟨add_of_notMem hold hnew html, by rw [hkeys]; exact htexts,
    by rw [hkeys]; exact hnodup⟩⟩

end

theorem routeAfter_of_not_endsSection {n : Node} (h : n.endsSection = false)
    (current : Option (Value × String)) : routeAfter current n = current := by
  rw [Node.endsSection] at h
  rw [routeAfter]
  cases hkind : n.kind? with
  | none => rfl
  | some k => cases k <;> first | rfl | simp [hkind, Kind.endsSection] at h

theorem routeAfter_of_endsSection {n : Node} (h : n.endsSection = true) (h3 : n.isA .head3 = false)
    (current : Option (Value × String)) : routeAfter current n = none := by
  rw [routeAfter]
  rcases Node.endsSection_iff.1 h with h | h | h
  · rw [Node.isA_iff_kind?.1 h]
  · rw [Node.isA_iff_kind?.1 h]
  · rw [h] at h3
    cases h3

theorem group_shown {r : Renderer} {current : Option (Value × String)} {n : Node} {key : Value}
    {routeSection : String} (hroute : routeAfter current n = some (key, routeSection))
    (hkey : key.isScalar = true) (hn : r.Shows n) (rs : Routes) (log : List Notice)
    (rest : List Node) :
    ∃ log', group r current rs log (n :: rest) =
      group r (some (key, routeSection)) (rs.add key (r.shown n)) log' rest := by
  obtain ⟨log', hrender⟩ := Html.Renderer.render_of_shows hn [] log
  refine ⟨log', ?_⟩
  rw [group, hroute]
  simp only [hkey, if_true, EStateM.run, hrender]

theorem group_head3 {r : Renderer} {rs : Routes} {n : Node} {rest : List Node} (hn : r.Shows n)
    (h3 : n.isA .head3 = true) (hfresh : Fresh rs (n :: rest))
    (current : Option (Value × String)) (log : List Notice) :
    ∃ x log', Anchor.ofNode n = .text x ∧ Fresh (rs ++ [(.text x, [r.shown n])]) rest ∧
      group r current rs log (n :: rest) =
        group r (some (.text x, n.flatten)) (rs ++ [(.text x, [r.shown n])]) log' rest := by
  obtain ⟨x, hx, hadd⟩ := hfresh.head3 h3
  obtain ⟨hadd, hfresh⟩ := hadd (r.shown n)
  have hroute : routeAfter current n = some (.text x, n.flatten) := by
    rw [routeAfter_head3 h3, hx]
  obtain ⟨log', hgroup⟩ := group_shown hroute rfl hn rs log rest
  exact ⟨x, log', hx, hfresh, by rw [hgroup, hadd]⟩

/-- Grouping adds the sections of the nodes to the routes: before the first heading of level three
nothing is added, and within a route the nodes up to the next heading go to that route. -/
theorem group_eq {r : Renderer} {ns : List Node} (hns : ∀ n ∈ ns, r.Shows n) :
    (∀ {rs : Routes}, Fresh rs ns → ∀ log, ∃ log',
      group r none rs log ns = some (rs ++ sections r.shown ns, log')) ∧
    ∀ {rs : Routes} {key : String} {htmls : List String},
      Fresh (rs ++ [(.text key, htmls)]) ns → ∀ routeSection log, ∃ log',
        group r (some (.text key, routeSection)) (rs ++ [(.text key, htmls)]) log ns =
          some (rs ++ (.text key, htmls ++ (lead ns).map r.shown) :: sections r.shown ns, log') := by
  induction ns with
  | nil =>
    refine ⟨fun _ log => ⟨log, ?_⟩, fun _ _ log => ⟨log, ?_⟩⟩
    · rw [group]
      exact congrArg (fun rs => some (rs, log)) (List.append_nil _).symm
    · rw [group, lead, List.takeWhile_nil, List.map_nil, List.append_nil]
      rfl
  | cons n rest ih =>
    obtain ⟨hn, hrest⟩ := List.forall_mem_cons.1 hns
    obtain ⟨ihnone, ihsome⟩ := ih hrest
    cases h3 : n.isA .head3 with
    | true =>
      have hends : n.endsSection = true := Node.endsSection_iff.2 (.inr (.inr h3))
      have hstart : ∀ {rs : Routes}, Fresh rs (n :: rest) → ∀ current log, ∃ log',
          group r current rs log (n :: rest) =
            some (rs ++ sections r.shown (n :: rest), log') := by
        intro rs hfresh current log
        obtain ⟨x, log₁, hx, hfresh, hgroup⟩ := group_head3 hn h3 hfresh current log
        rw [hgroup, sections_head3 r.shown rest h3, hx]
        exact ihsome hfresh n.flatten log₁
      refine ⟨fun hfresh log => hstart hfresh none log, fun hfresh routeSection log => ?_⟩
      obtain ⟨log', hgroup⟩ := hstart hfresh _ log
      rw [hgroup, lead_cons_head rest hends, List.map_nil, List.append_nil, List.append_assoc]
      exact ⟨log', rfl⟩
    | false =>
      rw [sections_other r.shown rest h3]
      cases hends : n.endsSection with
      | true =>
        refine ⟨fun hfresh log => ?_, fun hfresh routeSection log => ?_⟩
        · rw [group_of_none (routeAfter_of_endsSection hends h3 none)]
          exact ihnone (hfresh.other h3) log
        · obtain ⟨log', hgroup⟩ := ihnone (hfresh.other h3) log
          rw [group_of_none (routeAfter_of_endsSection hends h3 _), hgroup,
            lead_cons_head rest hends, List.map_nil, List.append_nil, List.append_assoc]
          exact ⟨log', rfl⟩
      | false =>
        refine ⟨fun hfresh log => ?_, fun {rs key htmls} hfresh routeSection log => ?_⟩
        · rw [group_of_none (routeAfter_of_not_endsSection hends none)]
          exact ihnone (hfresh.other h3) log
        · have hroute := routeAfter_of_not_endsSection hends (some (.text key, routeSection))
          obtain ⟨log₁, hgroup⟩ := group_shown hroute rfl hn (rs ++ [(.text key, htmls)]) log rest
          obtain ⟨hadd, hfresh⟩ := (hfresh.other h3).last (r.shown n)
          obtain ⟨log', hgroup'⟩ := ihsome hfresh routeSection log₁
          rw [hgroup, hadd, hgroup', lead_cons_other rest hends, List.map_cons, List.append_assoc]
          exact ⟨log', rfl⟩

/-! ## Making the routes -/

/-- Where the nodes can be grouped, the routes are made. -/
theorem routesFrom_of_group {d : Document} {current : Option (Value × String)} {rs rs' : Routes}
    {before rest : List Block} {log : List Notice} (hlabels : d.draft.page.WellLabelled)
    (hblocks : d.draft.page.blocks = before ++ rest)
    (h : group d.renderer current rs d.log (anchorTops d.ids (rest.map (·.node))).1 =
      some (rs', log)) : ∃ d', routesFrom current rs rest d = .ok rs' d' := by
  induction rest generalizing d current rs before with
  | nil =>
    cases h
    exact ⟨d, rfl⟩
  | cons b rest ih =>
    let entered := d.progressed (before ++ ⟨b.label, (anchorTop d.ids b.node).1⟩ :: rest)
      (anchorTop d.ids b.node).2
    have hlabels' : ∀ log, (entered log).draft.page.WellLabelled :=
      wellLabelled_progressed hlabels hblocks _ _
    have hblocks' : ∀ log, (entered log).draft.page.blocks =
        before ++ [⟨b.label, (anchorTop d.ids b.node).1⟩] ++ rest := fun _ => List.append_cons ..
    have hrenderer : ∀ log, (entered log).renderer = d.renderer :=
      renderer_progressed (Heading.fallback_anchorTop d.ids b.node) _
    rw [List.map_cons, Heading.anchorTops_cons, group] at h
    rw [routesFrom_cons current rs hlabels hblocks]
    dsimp only
    cases hroute : routeAfter current (anchorTop d.ids b.node).1 with
    | none =>
      rw [hroute] at h
      exact ih (hlabels' d.log) (hblocks' d.log) (hrenderer d.log ▸ h)
    | some route =>
      obtain ⟨key, routeSection⟩ := route
      simp only [hroute] at h
      cases hkey : key.isScalar with
      | false => simp only [hkey] at h; cases h
      | true =>
        simp only [hkey, if_true, EStateM.run] at h ⊢
        cases hrender : d.renderer.render [] (anchorTop d.ids b.node).1 d.log with
        | error f log₁ => simp only [hrender] at h; cases h
        | ok page log₁ =>
          simp only [hrender] at h
          exact ih (hlabels' log₁) (hblocks' log₁) (hrenderer log₁ ▸ h)

theorem routes_of_group {d : Document} {rs : Routes} {log : List Notice}
    (hlabels : d.draft.page.WellLabelled) (hnone : d.madeRoutes = none)
    (h : group d.renderer none [] d.log (Heading.anchorRoutes d.ids d.tree).1.children =
      some (rs, log)) : ∃ d', routes d = .ok rs d' := by
  obtain ⟨d', hd'⟩ := routesFrom_of_group hlabels (List.nil_append _).symm h
  refine ⟨{ d' with madeRoutes := some rs }, ?_⟩
  unfold routes
  simp only [bind, EStateM.bind, get_apply, hnone, hd']
  rfl

end Document
end RouteDocs
