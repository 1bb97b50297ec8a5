import RouteDocs.Html.PlainHighlighter
import RouteDocs.Proofs.Session.Order

/-!
# What comes out of a session

The identifier of a document, the anchors of its routes and those of the other
headings that its index lists come from one pool. So the order in which they
are asked for makes a difference where two of them want the same identifier,
and only there.

Results:
* `session_nil_ok`, `session_routes_ok`, `session_index_ok`: what each of the three orders makes.
* `keys_of_outcome`: the keys of the routes are the anchors of their headings.
* `routes_first_eq_iff`, `index_first_eq_iff`: when an order makes a difference.
* `session_agree_iff`: the two together, for any page without anchors.
-/
namespace RouteDocs.Document

open Heading (anchorFound anchorFoundAll anchorRoutes anchors elsewhere found tops)
open Html.Navigation (isHeading)

/-- What came out of a session: the identifier, the routes of a page, the index of a page, and the
page that it left behind. -/
structure Outcome (d : Document) (id : String) (routesOf indexOf left : Node) (v : Derived)
    (d' : Document) : Prop where
  moduleId : v.moduleId = id
  routes : ∃ log, group d.renderer none [] d.log routesOf.children = some (v.routes, log)
  index : v.index = (d.navigation id).text (indexOf.find isHeading)
  tree : d'.tree = left
  config : d'.config = d.config

theorem Untouched.settled {d : Document} (h : d.Untouched) : d.Settled :=
  ⟨h.clean.labelled, fun hindex => by rw [h.index] at hindex; cases hindex⟩

section
variable {d d' : Document} {v : Derived}

/-- The name of a document and what it is shown with stay. -/
structure SameSetting (d' d : Document) : Prop where
  config : d'.config = d.config
  path : d'.path = d.path
  fallback : d'.ids.fallback = d.ids.fallback
  highlighter : d'.highlighter = d.highlighter

theorem SameSetting.moduleName (h : SameSetting d' d) : d'.moduleName = d.moduleName := by
  rw [Document.moduleName, Document.moduleName, h.path]

theorem SameSetting.navigation (h : SameSetting d' d) (id : String) :
    d'.navigation id = d.navigation id := by
  rw [Document.navigation, Document.navigation, h.config]

theorem SameSetting.renderer (h : SameSetting d' d) : d'.renderer = d.renderer := by
  rw [Document.renderer, Document.renderer, h.config, h.fallback, h.highlighter]

theorem SameSetting.trans {d'' : Document} (h' : SameSetting d'' d') (h : SameSetting d' d) :
    SameSetting d'' d :=
  ⟨h'.config.trans h.config, h'.path.trans h.path, h'.fallback.trans h.fallback,
    h'.highlighter.trans h.highlighter⟩

theorem sameSetting_identified (d : Document) : SameSetting d.identified.2 d := by
  rw [identified]
  cases d.madeModuleId <;> exact ⟨rfl, rfl, rfl, rfl⟩

theorem identified_of_none (h : d.madeModuleId = none) :
    d.identified.1 = d.ids.fresh d.moduleName ∧ d.identified.2.tree = d.tree ∧
      d.identified.2.ids = (d.ids.allocate d.moduleName).2 := by
  rw [identified, h]
  exact ⟨rfl, rfl, rfl⟩

theorem sameSetting_routed (d : Document) (rs : Routes) (log : List Notice) :
    SameSetting (d.routed rs log) d :=
  ⟨rfl, rfl, Heading.fallback_anchorTops d.ids d.draft.page.nodes, rfl⟩

theorem sameSetting_freshIndex (d : Document) (id : String) : SameSetting (d.freshIndex id).2 d :=
  ⟨rfl, rfl, Heading.fallback_anchorFound d.ids d.tree, rfl⟩

theorem indexed_of_identified {id : String} (hid : d.madeModuleId = some id)
    (h : d.madeIndex = none) : d.indexed = d.freshIndex id := by
  rw [indexed, h, identified_of_some hid]

/-- Nothing asked for beforehand: the identifier is handed out first, then the anchors of the
routes, then the others. -/
theorem session_nil_ok (hd : d.Untouched) (h : session [] d = .ok v d') :
    let first := anchorRoutes (d.ids.allocate d.moduleName).2 d.tree
    let last := anchorFound first.2 first.1
    Outcome d (d.ids.fresh d.moduleName) first.1 last.1 last.1 v d' := by
  intro first last
  obtain ⟨hid, htree, hids⟩ := identified_of_none hd.moduleId
  obtain ⟨-, hdraft, hlog, hkept, hkept', -⟩ := identified_frame d
  have hsetting := sameSetting_identified d
  rw [session_nil] at h
  cases hroutes : routes d.identified.2 with
  | error f d₁ =>
    rw [hroutes] at h
    cases h
  | ok rs d₁ =>
    rw [hroutes] at h
    cases h
    obtain ⟨log, hgroup, rfl⟩ := routes_of_none (hdraft ▸ hd.clean.labelled)
      (hkept.trans hd.routes) hroutes
    have hsetting' := (sameSetting_routed d.identified.2 rs log).trans hsetting
    have hindexed : (d.identified.2.routed rs log).indexed =
        (d.identified.2.routed rs log).freshIndex d.identified.1 :=
      indexed_of_identified (madeModuleId_identified d) (hkept'.trans hd.index)
    rw [htree, hids, hlog, hsetting.renderer] at hgroup
    have htree' : (d.identified.2.routed rs log).tree = first.1 := by rw [tree_routed, htree, hids]
    have hids' : (d.identified.2.routed rs log).ids = first.2 := by rw [ids_routed, htree, hids]
    rw [hindexed]
    constructor
    · exact hid
    · exact ⟨log, hgroup⟩
    · rw [freshIndex, hsetting'.navigation, htree', hids', hid]
    · rw [tree_freshIndex, htree', hids']
    · exact ((sameSetting_freshIndex _ _).trans hsetting').config

/-- The routes first: their anchors are handed out before the identifier. -/
theorem session_routes_ok (hd : d.Untouched) (h : session [.routes] d = .ok v d') :
    let first := anchorRoutes d.ids d.tree
    let last := anchorFound (first.2.allocate d.moduleName).2 first.1
    Outcome d (first.2.fresh d.moduleName) first.1 last.1 last.1 v d' := by
  intro first last
  cases hroutes : routes d with
  | error f d₁ =>
    rw [session_routes_of_error [] hroutes] at h
    cases h
  | ok rs d₁ =>
    obtain ⟨log, hgroup, rfl⟩ := routes_of_none hd.clean.labelled hd.routes hroutes
    have hsetting := sameSetting_routed d rs log
    have hsetting' := (sameSetting_identified (d.routed rs log)).trans hsetting
    obtain ⟨hid, htree, hids⟩ := identified_of_none (d := d.routed rs log) hd.moduleId
    obtain ⟨-, -, -, hkept, hkept', -⟩ := identified_frame (d.routed rs log)
    have hindexed : (d.routed rs log).identified.2.indexed =
        (d.routed rs log).identified.2.freshIndex (d.routed rs log).identified.1 :=
      indexed_of_identified (madeModuleId_identified _) (hkept'.trans hd.index)
    rw [tree_routed] at htree
    rw [ids_routed, hsetting.moduleName] at hid hids
    rw [session_routes_of_ok [] hroutes, session_nil, routes_of_some hkept] at h
    cases h
    rw [hindexed]
    constructor
    · exact hid
    · exact ⟨log, hgroup⟩
    · rw [freshIndex, hsetting'.navigation, htree, hids, hid]
    · rw [tree_freshIndex, htree, hids]
    · exact ((sameSetting_freshIndex _ _).trans hsetting').config

theorem Untouched.indexed_frame (hd : d.Untouched) :
    let found := anchorFound (d.ids.allocate d.moduleName).2 d.tree
    d.indexed.1 = (d.navigation (d.ids.fresh d.moduleName)).text (found.1.find isHeading) ∧
      d.indexed.2.tree = found.1 ∧ d.indexed.2.ids = found.2 ∧ d.indexed.2.log = d.log ∧
      d.indexed.2.madeRoutes = none ∧ SameSetting d.indexed.2 d := by
  intro found
  obtain ⟨hid, htree, hids⟩ := identified_of_none hd.moduleId
  obtain ⟨-, -, hlog, -, -, -⟩ := identified_frame d
  have hindexed : d.indexed = d.identified.2.freshIndex d.identified.1 := by
    rw [indexed, hd.index]
  refine ⟨?_, ?_, ?_, ?_, (madeRoutes_indexed d).trans hd.routes, ?_⟩
  · rw [hindexed, freshIndex, (sameSetting_identified d).navigation, htree, hids, hid]
  · rw [hindexed, tree_freshIndex, htree, hids]
  · rw [hindexed, freshIndex, htree, hids]
  · rw [hindexed, ← hlog]
    rfl
  · rw [hindexed]
    exact (sameSetting_freshIndex _ _).trans (sameSetting_identified d)

/-- The index first: the identifier is handed out, then the anchors that the index lists, then
those of the other routes. -/
theorem session_index_ok (hd : d.Untouched) (h : session [.index] d = .ok v d') :
    let first := anchorFound (d.ids.allocate d.moduleName).2 d.tree
    let last := anchorRoutes first.2 first.1
    Outcome d (d.ids.fresh d.moduleName) last.1 first.1 last.1 v d' := by
  intro first last
  obtain ⟨hindex, htree, hids, hlog, hnone, hsetting⟩ := hd.indexed_frame
  have hnamed : d.indexed.2.identified = (d.identified.1, d.indexed.2) :=
    identified_of_some (madeModuleId_indexed hd.settled)
  rw [session_index, session_nil, hnamed] at h
  cases hroutes : routes d.indexed.2 with
  | error f d₁ =>
    rw [hroutes] at h
    cases h
  | ok rs d₁ =>
    obtain ⟨log, hgroup, rfl⟩ := routes_of_none hd.settled.indexed.labelled hnone hroutes
    have hmade : (d.indexed.2.routed rs log).madeIndex = some d.indexed.1 := madeIndex_indexed d
    rw [hroutes] at h
    simp only [indexed_of_some hmade] at h
    cases h
    rw [htree, hids, hlog, hsetting.renderer] at hgroup
    constructor
    · exact (identified_of_none hd.moduleId).1
    · exact ⟨log, hgroup⟩
    · exact hindex
    · rw [tree_routed, htree, hids]
    · exact ((sameSetting_routed _ rs log).trans hsetting).config

/-- Whatever the order, either the routes are made and then the index, or the index and then the
routes. -/
theorem session_outcome (hd : d.Untouched) {order : List Access} (h : session order d = .ok v d') :
    (∃ id ids ids', (anchorRoutes ids d.tree).2.issued ⊆ ids'.issued ∧
      Outcome d id (anchorRoutes ids d.tree).1 (anchorFound ids' (anchorRoutes ids d.tree).1).1
        (anchorFound ids' (anchorRoutes ids d.tree).1).1 v d') ∨
    ∃ id ids, Outcome d id (anchorRoutes (anchorFound ids d.tree).2 (anchorFound ids d.tree).1).1
      (anchorFound ids d.tree).1
      (anchorRoutes (anchorFound ids d.tree).2 (anchorFound ids d.tree).1).1 v d' := by
  rw [session_eq hd.settled] at h
  cases hdecisive : decisive order with
  | moduleId =>
    rw [hdecisive, session_moduleId, session_nil_identified] at h
    exact .inl ⟨_, _, _, fun _ hx => hx, session_nil_ok hd h⟩
  | routes =>
    rw [hdecisive] at h
    exact .inl ⟨_, _, _, fun _ hx => Identifiers.mem_issued_allocate.2 (.inl hx),
      session_routes_ok hd h⟩
  | index =>
    rw [hdecisive] at h
    exact .inr ⟨_, _, session_index_ok hd h⟩

theorem empty_pageSlots (hd : d.Untouched) : Slot.Empty Slot.all (Heading.pageSlots d.tree) :=
  Anchor.empty_pageSlots hd.clean.isAbsent_toNode

/-! ## The keys of the routes -/

theorem keys_of_outcome {id : String} {p q t : Node} {ids : Identifiers}
    (h : Outcome d id p q t v d') (hdistinct : Slot.Distinct ids (Heading.pageSlots p))
    (hfilled : Slot.Filled Slot.tops (Heading.pageSlots p)) :
    Entries.keys v.routes = anchors (tops p) := by
  obtain ⟨log, hgroup⟩ := h.routes
  exact keys_group_page hdistinct hfilled hgroup

/-! ## Routes first -/

theorem routes_eq_of_outcome {id id' : String} {p q t q' t' : Node} {v' : Derived} {d₁ d₂ : Document}
    (h : Outcome d id p q t v d₁) (h' : Outcome d id' p q' t' v' d₂) : v.routes = v'.routes := by
  obtain ⟨log, hgroup⟩ := h.routes
  obtain ⟨log', hgroup'⟩ := h'.routes
  rw [hgroup] at hgroup'
  exact (Prod.mk.inj (Option.some.inj hgroup')).1

/-- The routes first leave the identifier as it is exactly if no route is given what the document is
called when it is asked first. -/
theorem routes_first_moduleId_iff (hd : d.Untouched) {vr vm : Derived} {dr dm : Document}
    (hr : session [.routes] d = .ok vr dr) (hm : session [] d = .ok vm dm) :
    vr.moduleId = vm.moduleId ↔ .text vm.moduleId ∉ Entries.keys vr.routes := by
  have hempty := empty_pageSlots hd
  have htops : Slot.Empty Slot.tops (Heading.pageSlots d.tree) := hempty.mono
  have hr := session_routes_ok hd hr
  have hdistinct := Heading.distinct_anchorRoutes (Slot.Distinct.of_empty d.ids hempty)
  have hiff := Slot.fresh_fill_eq_iff d.ids d.moduleName htops
  rw [Heading.fill_pageSlots_tops] at hiff
  rw [keys_of_outcome hr hdistinct (Heading.filled_anchorRoutes _ _), hr.moduleId,
    (session_nil_ok hd hm).moduleId, ← Heading.given_pageSlots_tops]
  exact hiff

/-- Then they leave everything as it is. -/
theorem routes_first_eq_iff (hd : d.Untouched) {vr vm : Derived} {dr dm : Document}
    (hr : session [.routes] d = .ok vr dr) (hm : session [] d = .ok vm dm) :
    vr = vm ↔ .text vm.moduleId ∉ Entries.keys vr.routes := by
  rw [← routes_first_moduleId_iff hd hr hm]
  refine ⟨congrArg Derived.moduleId, fun hid => ?_⟩
  have htops : Slot.Empty Slot.tops (Heading.pageSlots d.tree) := (empty_pageSlots hd).mono
  have hr := session_routes_ok hd hr
  have hm := session_nil_ok hd hm
  have hid' : (anchorRoutes d.ids d.tree).2.fresh d.moduleName = d.ids.fresh d.moduleName := by
    rw [← hr.moduleId, hid, hm.moduleId]
  have hfree : .text (d.ids.fresh d.moduleName) ∉
      Slot.given Slot.tops (Slot.fill Slot.tops d.ids (Heading.pageSlots d.tree)).1 := by
    rwa [← Slot.fresh_fill_eq_iff d.ids d.moduleName htops, Heading.fill_pageSlots_tops]
  -- the routes get the same anchors, and after them the same identifiers are in use
  obtain ⟨hfill, hissued⟩ := Slot.fill_allocate_eq htops hfree
  rw [Heading.fill_pageSlots_tops, Heading.fill_pageSlots_tops] at hfill hissued
  dsimp only at hfill hissued
  have hpage := Heading.anchorRoutes_eq_of_slots hfill
  have hlast : (anchorFound (anchorRoutes (d.ids.allocate d.moduleName).2 d.tree).2
        (anchorRoutes d.ids d.tree).1).1 =
      (anchorFound ((anchorRoutes d.ids d.tree).2.allocate d.moduleName).2
        (anchorRoutes d.ids d.tree).1).1 := by
    refine Heading.anchorFound_eq_of_pageSlots ?_
    have hfallback : (anchorRoutes (d.ids.allocate d.moduleName).2 d.tree).2.fallback =
        ((anchorRoutes d.ids d.tree).2.allocate d.moduleName).2.fallback :=
      (Heading.fallback_anchorRoutes (d.ids.allocate d.moduleName).2 d.tree).trans
        (Heading.fallback_anchorRoutes d.ids d.tree).symm
    have hsame := Slot.fill_congr hfallback hissued
      (Heading.listed (anchorRoutes d.ids d.tree).1) (Heading.pageSlots (anchorRoutes d.ids d.tree).1)
    rwa [Heading.fill_pageSlots_listed, Heading.fill_pageSlots_listed] at hsame
  dsimp only at hm
  rw [hpage, hlast] at hm
  refine Derived.ext hid (routes_eq_of_outcome hr hm) ?_
  rw [hr.index, hm.index, hid']

/-! ## Index first -/

theorem firstLines_congr (nav : Html.Navigation) {n m : Node} (hflat : n.flatten = m.flatten)
    (hanchor : Anchor.ofNode n = Anchor.ofNode m)
    (hgroup : Html.Navigation.opensGroup n = Html.Navigation.opensGroup m) :
    nav.firstLines n = nav.firstLines m := by
  have hheader : nav.header n = nav.header m := by
    unfold Html.Navigation.header
    rw [hflat]
  have hentry : nav.entry n = nav.entry m := by
    unfold Html.Navigation.entry
    rw [hflat, hanchor]
  unfold Html.Navigation.firstLines
  rw [hgroup, hheader, hentry]

/-- The index of a page that is a heading reads only the text of its blocks. -/
theorem text_singleton (nav : Html.Navigation) {name : String} {as : Attributes}
    {cs cs' : List Node} (h : Node.flattenAll cs = Node.flattenAll cs') :
    nav.text [.element name as cs] = nav.text [.element name as cs'] := by
  have hfirst := firstLines_congr nav (n := .element name as cs) (m := .element name as cs') h rfl rfl
  rw [Html.Navigation.text, Html.Navigation.lines, hfirst, Html.Navigation.text,
    Html.Navigation.lines]

/-- Once the index is made, anchors for the routes change no entry. -/
theorem text_find_anchorRoutes (nav : Html.Navigation) (ids ids' : Identifiers) (n : Node) :
    nav.text ((anchorRoutes ids' (anchorFound ids n).1).1.find isHeading) =
      nav.text ((anchorFound ids n).1.find isHeading) := by
  cases n with
  | text s => rfl
  | element name as cs =>
    cases h : isHeading name with
    | true =>
      obtain ⟨as', heq⟩ := Heading.anchorFound_heading h ids as cs
      rw [heq, anchorRoutes, Node.find, Node.find, if_pos h, if_pos h]
      exact text_singleton nav (Heading.flattenAll_anchorTops ids' cs)
    | false => rw [Heading.anchorFound_other h, anchorRoutes, Heading.anchorTops_anchorFoundAll]

theorem group_anchorFound (r : Html.Renderer) (log : List Notice) (ids : Identifiers) {n : Node}
    (hfilled : Slot.Filled Slot.tops (Heading.pageSlots n)) :
    group r none [] log (anchorFound ids n).1.children = group r none [] log n.children := by
  cases n with
  | text s => rfl
  | element name as cs =>
    cases h : isHeading name with
    | true =>
      obtain ⟨as', heq⟩ := Heading.anchorFound_heading h ids as cs
      rw [heq]
      rfl
    | false =>
      rw [Heading.pageSlots_other h] at hfilled
      rw [Heading.anchorFound_other h]
      exact group_anchorFoundAll r none [] log ids hfilled

/-- To ask for the index before the routes makes no difference exactly if no heading that the index
finds elsewhere is given what a route is given when the routes come before the index. -/
theorem index_first_eq_iff (hd : d.Untouched) {vi vm : Derived} {di dm : Document}
    (hi : session [.index] d = .ok vi di) (hm : session [] d = .ok vm dm) :
    vi = vm ↔ ∀ key ∈ anchors (elsewhere di.tree), key ∉ Entries.keys vm.routes := by
  have hempty := empty_pageSlots hd
  have hi := session_index_ok hd hi
  have hm := session_nil_ok hd hm
  have hdistinct := Slot.Distinct.of_empty (d.ids.allocate d.moduleName).2 hempty
  have hkeysi := keys_of_outcome hi
    (Heading.distinct_anchorRoutes (Heading.distinct_anchorFound hdistinct))
    (Heading.filled_anchorRoutes _ _)
  have hkeysm := keys_of_outcome hm (Heading.distinct_anchorRoutes hdistinct)
    (Heading.filled_anchorRoutes _ _)
  rw [hi.tree, hkeysm, ← Heading.anchored_eq_iff _ hempty]
  constructor
  · rintro rfl
    exact Heading.anchored_eq_of_tops hempty (hkeysi.symm.trans hkeysm)
  · intro hpage
    have hroutes : Outcome d (d.ids.fresh d.moduleName)
        (anchorRoutes (d.ids.allocate d.moduleName).2 d.tree).1
        (anchorFound (d.ids.allocate d.moduleName).2 d.tree).1 di.tree vi di := by
      refine ⟨hi.moduleId, ?_, hi.index, rfl, hi.config⟩
      obtain ⟨log, hgroup⟩ := hi.routes
      rw [← hpage, group_anchorFound _ _ _ (Heading.filled_anchorRoutes _ _)] at hgroup
      exact ⟨log, hgroup⟩
    refine Derived.ext (hi.moduleId.trans hm.moduleId.symm) (routes_eq_of_outcome hroutes hm) ?_
    rw [hi.index, hm.index, hpage, text_find_anchorRoutes]

/-! ## All orders -/

/-- For a page without anchors: a session turns on no more than what is decisive about its order.
Routes first change something exactly if a route takes the identifier that the document would have
had, and the index before the routes exactly if a heading elsewhere takes what a route would have
had; the two come out the same only where neither changes anything. -/
theorem session_agree_iff [Html.Highlighter] {c : Config} {path : Option String}
    {seed : List String} {name : String} {as : Attributes} {cs : List Node}
    (habsent : Anchor.isAbsent (.element name as cs) = true)
    (hd : ofPage c path seed (Page.ofElement name as cs) = .ok d) {vm vr vi : Derived}
    {dm dr di : Document} (hm : session [.moduleId] d = .ok vm dm)
    (hr : session [.routes] d = .ok vr dr) (hi : session [.index] d = .ok vi di) :
    (∀ order, session order d = session [decisive order] d) ∧
      (vr = vm ↔ .text vm.moduleId ∉ Entries.keys vr.routes) ∧
      (vi = vm ↔ ∀ key ∈ anchors (elsewhere di.tree), key ∉ Entries.keys vm.routes) ∧
      (vr = vi ↔ vr = vm ∧ vi = vm) := by
  have huntouched := untouched_ofPage habsent hd
  rw [session_moduleId, session_nil_identified] at hm
  have hroutes := routes_first_eq_iff huntouched hr hm
  refine ⟨session_eq huntouched.settled, hroutes, index_first_eq_iff huntouched hi hm, ?_⟩
  refine ⟨?_, fun ⟨hrm, him⟩ => hrm.trans him.symm⟩
  rintro rfl
  -- the identifier is the same whether the index or nothing comes first
  have hid : vr.moduleId = vm.moduleId :=
    (session_index_ok huntouched hi).moduleId.trans (session_nil_ok huntouched hm).moduleId.symm
  have hrm := (routes_first_moduleId_iff huntouched hr hm).1 hid
  exact ⟨hroutes.2 hrm, hroutes.2 hrm⟩

/-- A session on a page by itself ends well, and what it begins with, makes and leaves passes a
test. -/
def endsWith [Html.Highlighter] (cs : List Node) (order : List Access)
    (test : Document → Derived → Document → Bool) : Bool :=
  match ofPage Config.default none [] (Page.ofElement "Document" [] cs) with
  | .error _ => false
  | .ok d =>
    match session order d with
    | .error .. => false
    | .ok v d' => test d v d'

theorem of_endsWith [Html.Highlighter] {cs : List Node} {order : List Access}
    {test : Document → Derived → Document → Bool} (h : endsWith cs order test = true) :
    ∃ d v d', ofPage Config.default none [] (Page.ofElement "Document" [] cs) = .ok d ∧
      session order d = .ok v d' ∧ test d v d' = true := by
  rw [endsWith] at h
  cases hd : ofPage Config.default none [] (Page.ofElement "Document" [] cs) with
  | error e =>
    rw [hd] at h
    cases h
  | ok d =>
    rw [hd] at h
    cases hv : session order d with
    | error f d' =>
      simp only [hv] at h
      cases h
    | ok v d' =>
      simp only [hv] at h
      exact ⟨d, v, d', rfl, hv, h⟩

/-- A page of one route, on which order makes no difference. -/
theorem session_agree_of_one_route :
    let cs : List Node := [.element "head3" [] [.text "GET /a"], .element "Para" [] [.text "A."]]
    ∃ d vm dm vr dr vi di,
      ofPage Config.default none [] (Page.ofElement "Document" [] cs) = .ok d ∧
      session [.moduleId] d = .ok vm dm ∧ session [.routes] d = .ok vr dr ∧
      session [.index] d = .ok vi di ∧ vm.moduleId = "pod" ∧ vr = vm ∧ vi = vm := by
  intro cs
  have hm : endsWith cs [.moduleId] (fun _ v _ => v.moduleId = "pod") = true := by decide +kernel
  have hr : endsWith cs [.routes] (fun _ v _ => v.routes.all fun entry =>
      !Value.sameKey entry.1 (.text "pod")) = true := by decide +kernel
  have hi : endsWith cs [.index] (fun _ _ d' => (anchors (elsewhere d'.tree)).isEmpty) = true := by
    decide +kernel
  obtain ⟨d, vm, dm, hd, hm, hid⟩ := of_endsWith hm
  obtain ⟨d₁, vr, dr, hd₁, hr, hkeys⟩ := of_endsWith hr
  obtain ⟨d₂, vi, di, hd₂, hi, hnone⟩ := of_endsWith hi
  obtain rfl : d = d₁ := Except.ok.inj (hd.symm.trans hd₁)
  obtain rfl : d = d₂ := Except.ok.inj (hd.symm.trans hd₂)
  have hid : vm.moduleId = "pod" := of_decide_eq_true hid
  obtain ⟨-, hroutes, hindex, -⟩ := session_agree_iff (by decide +kernel) hd hm hr hi
  refine ⟨d, vm, dm, vr, dr, vi, di, hd, hm, hr, hi, hid, hroutes.2 fun hmem => ?_, hindex.2 ?_⟩
  · obtain ⟨entry, hentry, hkey⟩ := List.mem_map.1 hmem
    have hother := List.all_eq_true.1 hkeys entry hentry
    rw [hkey, hid] at hother
    cases hother
  · rw [List.isEmpty_iff.1 hnone]
    exact nofun

/-- Two sessions on a page of one route, called as the document would be. -/
theorem session_orders_differ :
    let cs : List Node := [.element "head3" [] [.text "pod"]]
    ∃ d vm dm vr dr,
      Anchor.isAbsent (.element "Document" [] cs) = true ∧
      ofPage Config.default none [] (Page.ofElement "Document" [] cs) = .ok d ∧
      session [.moduleId, .routes, .index] d = .ok vm dm ∧
      session [.routes, .moduleId, .index] d = .ok vr dr ∧
      vm.moduleId = "pod" ∧ vr.moduleId = "pod0" := by
  intro cs
  have hm : endsWith cs [.moduleId, .routes, .index] (fun _ v _ => v.moduleId = "pod") = true := by
    decide +kernel
  have hr : endsWith cs [.routes, .moduleId, .index] (fun _ v _ => v.moduleId = "pod0") = true := by
    decide +kernel
  obtain ⟨d, vm, dm, hd, hm, hid⟩ := of_endsWith hm
  obtain ⟨d₁, vr, dr, hd₁, hr, hid'⟩ := of_endsWith hr
  obtain rfl : d = d₁ := Except.ok.inj (hd.symm.trans hd₁)
  exact ⟨d, vm, dm, vr, dr, by decide +kernel, hd, hm, hr, of_decide_eq_true hid,
    of_decide_eq_true hid'⟩

end

end RouteDocs.Document
