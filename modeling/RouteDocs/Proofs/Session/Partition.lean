import RouteDocs.Html.PlainHighlighter
import RouteDocs.Proofs.Fragments
import RouteDocs.Proofs.Session.Sidebar

/-!
# The routes against the whole page

A page is shown as its nodes one after the other, and a route as the nodes of
its run. Anchors are no part of what is shown. So the routes of a page that can
be shown can be made, in any order of accesses, and with what stands outside of
them they are the page.

Results:
* `session_isOk`: a session on a page that can be shown ends well.
* `ends_of_session`: the routes are those of the page that the session leaves, which is shown as
  the page was before.
* `routes_partition`: each route has the renderings of its run, and the page is put together of the
  routes and the other renderings.
-/
namespace RouteDocs

open Heading (anchorFound anchorRoutes anchorTops anchors pageSlots tops)
open Html (Renderer)

namespace Heading

theorem of_mem_pageSlots {p n : Node} (h : n ∈ tops p) : Slot.of true n ∈ pageSlots p := by
  obtain ⟨hn, h3⟩ := List.mem_filter.1 h
  cases p with
  | text s => cases hn
  | element name as cs =>
    refine List.mem_append_right _ (List.mem_flatMap.2 ⟨n, hn, ?_⟩)
    rw [if_pos h3, slots, found_head3 h3]
    exact List.mem_cons_self

theorem map_ofNode {ns : List Node} (h : ∀ n ∈ ns, (Anchor.ofAttributes? n.attributes).isSome = true) :
    ns.map Anchor.ofNode = anchors ns := by
  induction ns with
  | nil => rfl
  | cons n rest ih =>
    obtain ⟨hn, hrest⟩ := List.forall_mem_cons.1 h
    obtain ⟨v, hv⟩ := Option.isSome_iff_exists.1 hn
    rw [List.map_cons, ih hrest, anchors, anchors, List.filterMap_cons, hv, Anchor.ofNode, hv]
    rfl

theorem map_ofNode_tops {p : Node} (h : Slot.Filled Slot.tops (pageSlots p)) :
    (tops p).map Anchor.ofNode = anchors (tops p) :=
  map_ofNode fun _ hn => h _ (of_mem_pageSlots hn) rfl

end Heading

/-! ## Showing a page -/

namespace Html.Renderer

variable {r : Renderer}

theorem renderAll_anchorTops (trail : List String) (ids : Identifiers) (ns : List Node) :
    r.renderAll trail (anchorTops ids ns).1 = r.renderAll trail ns := by
  induction ns generalizing ids with
  | nil => rfl
  | cons n rest ih => rw [Heading.anchorTops_cons, renderAll, renderAll, r.render_anchorTop, ih]

theorem render_document (trail : List String) (as : Attributes) (cs : List Node) :
    r.render trail (.element Kind.document.name as cs) =
      r.renderAll (trail ++ [Kind.document.name]) cs := by
  have hkind : Kind.ofName? Kind.document.name = some .document := Kind.ofName?_eq_some_iff.2 rfl
  rw [render.eq_def]
  simp only [hkind]

/-- A page that is no more than its nodes, and the text that it is shown as. -/
structure ShowsPage (r : Renderer) (p : Node) (page : String) : Prop where
  isDocument : p.isA .document = true
  render : ∃ log log', r.render [] p log = .ok page log'

namespace ShowsPage

variable {p : Node} {page : String}

theorem anchorFound (h : r.ShowsPage p page) (ids : Identifiers) :
    r.ShowsPage (anchorFound ids p).1 page where
  isDocument := (Heading.isA_anchorFound ids p .document).trans h.isDocument
  render := by rw [r.render_anchorFound]; exact h.render

theorem anchorRoutes (h : r.ShowsPage p page) (ids : Identifiers) :
    r.ShowsPage (anchorRoutes ids p).1 page := by
  obtain ⟨as, cs, rfl⟩ := Node.isA_iff.1 h.isDocument
  refine ⟨h.isDocument, ?_⟩
  obtain ⟨log, log', hrender⟩ := h.render
  refine ⟨log, log', ?_⟩
  rw [Heading.anchorRoutes, render_document, renderAll_anchorTops, ← render_document]
  exact hrender

theorem children (h : r.ShowsPage p page) :
    (∀ n ∈ p.children, r.Shows n) ∧ page = String.join (p.children.map r.shown) := by
  obtain ⟨as, cs, rfl⟩ := Node.isA_iff.1 h.isDocument
  obtain ⟨log, log', hrender⟩ := h.render
  rw [render_document] at hrender
  exact renderAll_ok hrender

end ShowsPage
end Html.Renderer

namespace Document

section
variable {d d' : Document} {v : Derived} {page : String}

/-! ## Sessions -/

theorem sameSetting_indexed (d : Document) : SameSetting d.indexed.2 d := by
  rw [indexed]
  cases d.madeIndex with
  | none => exact (sameSetting_freshIndex _ _).trans (sameSetting_identified d)
  | some s => exact ⟨rfl, rfl, rfl, rfl⟩

theorem sameSetting_routes {rs : Routes} (hd : d.Settled) (h : routes d = .ok rs d') :
    SameSetting d' d := by
  cases hroutes : d.madeRoutes with
  | some rs' =>
    rw [routes_of_some hroutes] at h
    cases h
    exact ⟨rfl, rfl, rfl, rfl⟩
  | none =>
    obtain ⟨log, -, rfl⟩ := routes_of_none hd.labelled hroutes h
    exact sameSetting_routed d rs log

theorem sameSetting_session (hd : d.Settled) {order : List Access}
    (h : session order d = .ok v d') : SameSetting d' d := by
  induction order generalizing d with
  | nil =>
    rw [session_nil] at h
    cases hroutes : routes d.identified.2 with
    | error f d₁ => rw [hroutes] at h; cases h
    | ok rs d₁ =>
      rw [hroutes] at h
      cases h
      exact (sameSetting_indexed d₁).trans
        ((sameSetting_routes hd.identify hroutes).trans (sameSetting_identified d))
  | cons a rest ih =>
    cases a with
    | moduleId =>
      rw [session_moduleId] at h
      exact (ih hd.identify h).trans (sameSetting_identified d)
    | index =>
      rw [session_index] at h
      exact (ih hd.indexed h).trans (sameSetting_indexed d)
    | routes =>
      cases hroutes : routes d with
      | error f d₁ => rw [session_routes_of_error rest hroutes] at h; cases h
      | ok rs d₁ =>
        rw [session_routes_of_ok rest hroutes] at h
        obtain ⟨-, -, -, hd₁⟩ := routes_frame hd hroutes
        exact (ih hd₁ h).trans (sameSetting_routes hd hroutes)

/-- The anchors of a page on which every heading has an identifier of its own can be keys. -/
theorem fresh_children {p : Node} {ids : Identifiers} (hdistinct : Slot.Distinct ids (pageSlots p))
    (hfilled : Slot.Filled Slot.tops (pageSlots p)) : Fresh [] p.children := by
  have hgiven := Heading.given_pageSlots_tops p
  have hkeys : Entries.keys ([] : Routes) ++ (p.children.filter (Node.isA .head3)).map Anchor.ofNode =
      anchors (tops p) := Heading.map_ofNode_tops hfilled
  constructor
  · rw [hkeys]
    intro u hu
    rw [← hgiven] at hu
    obtain ⟨x, -, rfl⟩ := hdistinct.issued u (Slot.mem_given_all_iff.2 (.inl hu))
    exact ⟨x, rfl⟩
  · rw [hkeys, ← hgiven]
    exact hdistinct.nodup_given Slot.tops

theorem routes_isOk (hlabels : d.draft.page.WellLabelled) (hnone : d.madeRoutes = none)
    (hdistinct : Slot.Distinct d.ids (pageSlots d.tree)) (hpage : d.renderer.ShowsPage d.tree page) :
    ∃ rs d', routes d = .ok rs d' := by
  have hfresh := fresh_children (Heading.distinct_anchorRoutes hdistinct)
    (Heading.filled_anchorRoutes d.ids d.tree)
  obtain ⟨hshown, -⟩ := (hpage.anchorRoutes d.ids).children
  obtain ⟨log, hgroup⟩ := (group_eq hshown).1 hfresh d.log
  exact ⟨_, routes_of_group hlabels hnone hgroup⟩

/-- A session on a page that can be shown ends well. -/
theorem session_isOk (hd : d.Untouched) (hpage : d.renderer.ShowsPage d.tree page)
    (order : List Access) : ∃ v d', session order d = .ok v d' := by
  have hempty := empty_pageSlots hd
  have hlabels := hd.clean.labelled
  obtain ⟨-, htree, -⟩ := identified_of_none hd.moduleId
  obtain ⟨-, hdraft, -, hkept, -, -⟩ := identified_frame d
  have hnil : ∃ v d', session [] d = .ok v d' := by
    have hroutes := routes_isOk (hdraft ▸ hlabels) (hkept.trans hd.routes)
      (htree ▸ Slot.Distinct.of_empty _ hempty)
      (htree ▸ (sameSetting_identified d).renderer ▸ hpage)
    obtain ⟨rs, d₁, hroutes⟩ := hroutes
    rw [session_nil, hroutes]
    exact ⟨_, _, rfl⟩
  rw [session_eq hd.settled]
  cases decisive order with
  | moduleId => rwa [session_moduleId, session_nil_identified]
  | routes =>
    obtain ⟨rs, d₁, hroutes⟩ :=
      routes_isOk hlabels hd.routes (Slot.Distinct.of_empty _ hempty) hpage
    obtain ⟨hmade, -, -, -⟩ := routes_frame hd.settled hroutes
    have hkept₁ := (identified_frame d₁).2.2.2.1.trans hmade
    rw [session_routes_of_ok [] hroutes, session_nil, routes_of_some hkept₁]
    exact ⟨_, _, rfl⟩
  | index =>
    obtain ⟨-, htree₁, hids₁, -, hnone, hsetting⟩ := hd.indexed_frame
    have hdistinct := Heading.distinct_anchorFound
      (Slot.Distinct.of_empty (d.ids.allocate d.moduleName).2 hempty)
    have hshown : d.indexed.2.renderer.ShowsPage d.indexed.2.tree page := by
      rw [htree₁, hsetting.renderer]
      exact hpage.anchorFound _
    obtain ⟨rs, d₁, hroutes⟩ := routes_isOk hd.settled.indexed.labelled hnone
      (by rw [htree₁, hids₁]; exact hdistinct) hshown
    have hnamed : d.indexed.2.identified = (d.identified.1, d.indexed.2) :=
      identified_of_some (madeModuleId_indexed hd.settled)
    rw [session_index, session_nil, hnamed]
    simp only [hroutes]
    exact ⟨_, _, rfl⟩

/-- The end of a session: the routes are the sections of the page as it then is, and that page is
shown as the page was before. -/
structure Ends (d : Document) (page : String) (v : Derived) (d' : Document) : Prop where
  routes : v.routes = sections d.renderer.shown d'.tree.children
  shows : d.renderer.ShowsPage d'.tree page

theorem eq_sections {r : Renderer} {p : Node} {ids : Identifiers} {rs : Routes}
    {log log' : List Notice} (hpage : r.ShowsPage p page)
    (hdistinct : Slot.Distinct ids (pageSlots p)) (hfilled : Slot.Filled Slot.tops (pageSlots p))
    (h : group r none [] log p.children = some (rs, log')) : rs = sections r.shown p.children := by
  obtain ⟨log₁, hgroup⟩ := (group_eq hpage.children.1).1 (fresh_children hdistinct hfilled) log
  rw [hgroup] at h
  exact (Prod.mk.inj (Option.some.inj h)).1.symm

theorem ends_of_routes_first {id : String} {ids ids' : Identifiers} (hd : d.Untouched)
    (hpage : d.renderer.ShowsPage d.tree page)
    (hsub : (anchorRoutes ids d.tree).2.issued ⊆ ids'.issued)
    (h : Outcome d id (anchorRoutes ids d.tree).1
      (anchorFound ids' (anchorRoutes ids d.tree).1).1
      (anchorFound ids' (anchorRoutes ids d.tree).1).1 v d') : Ends d page v d' := by
  have hdistinct := (Heading.distinct_anchorRoutes
    (Slot.Distinct.of_empty ids (empty_pageSlots hd))).mono hsub
  have hfilled := Heading.filled_anchorRoutes ids d.tree
  have hfilled' := hfilled.fill (Heading.listed (anchorRoutes ids d.tree).1) ids'
  rw [Heading.fill_pageSlots_listed] at hfilled'
  have hshown := (hpage.anchorRoutes ids).anchorFound ids'
  obtain ⟨log, hgroup⟩ := h.routes
  rw [← group_anchorFound d.renderer d.log ids' hfilled] at hgroup
  refine ⟨?_, h.tree ▸ hshown⟩
  rw [h.tree]
  exact eq_sections hshown (Heading.distinct_anchorFound hdistinct) hfilled' hgroup

/-- In any order of accesses. -/
theorem ends_of_session (hd : d.Untouched) (hpage : d.renderer.ShowsPage d.tree page)
    {order : List Access} (h : session order d = .ok v d') : Ends d page v d' := by
  rcases session_outcome hd h with ⟨id, ids, ids', hsub, houtcome⟩ | ⟨id, ids, houtcome⟩
  · exact ends_of_routes_first hd hpage hsub houtcome
  · have hdistinct := Heading.distinct_anchorFound (Slot.Distinct.of_empty ids (empty_pageSlots hd))
    have hshown := (hpage.anchorFound ids).anchorRoutes (anchorFound ids d.tree).2
    obtain ⟨log, hgroup⟩ := houtcome.routes
    refine ⟨?_, houtcome.tree ▸ hshown⟩
    rw [houtcome.tree]
    exact eq_sections hshown (Heading.distinct_anchorRoutes hdistinct)
      (Heading.filled_anchorRoutes _ _) hgroup

/-- A page without anchors that can be shown has its routes, in any order of accesses: one for each
heading of level three among its nodes, in order and under the anchor of the heading, with the
renderings of the nodes from the heading up to the next of level one to three. The fragments of the
routes and the renderings of the other nodes, in order, are the page. -/
theorem routes_partition [Html.Highlighter] {c : Config} {path : Option String}
    {seed : List String} {name : String} {as : Attributes} {cs : List Node}
    (habsent : Anchor.isAbsent (.element name as cs) = true)
    (hd : ofPage c path seed (Page.ofElement name as cs) = .ok d)
    (hroot : d.tree.isA .document = true) {d₁ : Document} (hpage : html d.tree d = .ok page d₁)
    (order : List Access) :
    ∃ v d', session order d = .ok v d' ∧
      let ns := d'.tree.children
      let shown := d'.renderer.shown
      (∀ n ∈ ns, d'.renderer.Shows n) ∧
      v.routes = sections shown ns ∧
      Entries.keys v.routes = (ns.filter (Node.isA .head3)).map Anchor.ofNode ∧
      (Entries.keys v.routes).Nodup ∧
      page = String.join ((lead ns).map shown ++ assembled shown (runs ns) v.routes) ∧
      ∃ d₂, html d'.tree d' = .ok page d₂ := by
  have huntouched := untouched_ofPage habsent hd
  have hshows : d.renderer.ShowsPage d.tree page := by
    refine ⟨hroot, d.log, ?_⟩
    rw [html, EStateM.run] at hpage
    cases hrender : d.renderer.render [] d.tree d.log with
    | error f log => rw [hrender] at hpage; cases hpage
    | ok page' log => rw [hrender] at hpage; cases hpage; exact ⟨log, rfl⟩
  obtain ⟨v, d', h⟩ := session_isOk huntouched hshows order
  obtain ⟨hsections, hends⟩ := ends_of_session huntouched hshows h
  obtain ⟨hanchored, -, hkeys⟩ := session_complete huntouched h
  have hfilled : Slot.Filled Slot.tops (pageSlots d'.tree) := fun s hs _ => hanchored.filled s hs rfl
  have hrenderer := (sameSetting_session huntouched.settled h).renderer
  obtain ⟨hnodes, hjoin⟩ := hends.children
  refine ⟨v, d', h, ?_⟩
  rw [hrenderer]
  refine ⟨hnodes, hsections, ?_, ?_, ?_, ?_⟩
  · rw [hkeys, ← Heading.map_ofNode_tops hfilled]
    rfl
  · rw [hkeys, ← Heading.given_pageSlots_tops, Slot.given_eq_filter Slot.tops]
    exact hanchored.nodup.sublist (List.filter_sublist.filterMap _)
  · rw [hsections, join_assembled]
    exact hjoin
  · obtain ⟨log, hrender⟩ := hends.render
    obtain ⟨log', hrender⟩ := (d.renderer.render_ok_iff [] d'.tree d'.log page).2
      ((d.renderer.render_ok_iff [] d'.tree log page).1 hrender)
    rw [html, hrenderer, EStateM.run, hrender]
    exact ⟨_, rfl⟩

/-- A page of two routes with the same text, with nodes before, between and behind them. -/
theorem routes_partition_of_two_routes :
    let cs : List Node :=
      [.text "A.", .element "head3" [] [.text "GET /a"], .element "X" [] [.text "B."],
        .element "head2" [] [.text "C"], .text "D.", .element "head3" [] [.text "GET /a"]]
    ∃ d page d₁ v d',
      Anchor.isAbsent (.element "Document" [] cs) = true ∧
      ofPage Config.default none [] (Page.ofElement "Document" [] cs) = .ok d ∧
      d.tree.isA .document = true ∧ html d.tree d = .ok page d₁ ∧
      session [.index] d = .ok v d' ∧
      (Entries.keys v.routes).Nodup ∧
      page = String.join ((lead d'.tree.children).map d'.renderer.shown ++
        assembled d'.renderer.shown (runs d'.tree.children) v.routes) := by
  intro cs
  have hends : endsWith cs [] (fun d _ _ => d.tree.isA .document &&
      ((html d.tree).run' d).isSome) = true := by
    decide +kernel
  obtain ⟨d, -, -, hd, -, htest⟩ := of_endsWith hends
  rw [Bool.and_eq_true] at htest
  obtain ⟨hroot, hshown⟩ := htest
  cases hpage : html d.tree d with
  | error f d₁ =>
    delta EStateM.run' EStateM.run at hshown
    rw [hpage] at hshown
    cases hshown
  | ok page d₁ =>
    have habsent : Anchor.isAbsent (.element "Document" [] cs) = true := by decide +kernel
    obtain ⟨v, d', h, -, -, -, hnodup, hjoin, -⟩ :=
      routes_partition habsent hd hroot hpage [.index]
    exact ⟨d, page, d₁, v, d', habsent, hd, hroot, hpage, h, hnodup, hjoin⟩

end
end Document
end RouteDocs
