import RouteDocs.Proofs.Preparation
import RouteDocs.Proofs.Routes

/-!
# Sessions

A document is asked for its identifier, its routes and its index, in any order
and as often as one likes. Each draws from one pool of identifiers when it is
first asked for and is kept from then on. What comes out of a session depends
on no more of the order than whether the routes come first, the index comes
before the routes, or neither.

Results:
* `moduleId_apply`, `index_apply`, `routes_of_none`: what each access does to a document.
* `session_eq`: every session ends as one of three, by what is decisive about its order.
-/
namespace RouteDocs.Document

inductive Access where
  | moduleId
  | routes
  | index
  deriving DecidableEq

@[ext]
structure Derived where
  moduleId : String
  routes : Routes
  index : String

def ask : Access → Action Unit
  | .moduleId => do
    let _ ← moduleId
  | .routes => do
    let _ ← routes
  | .index => do
    let _ ← index

def askAll : Action Derived := do
  let id ← moduleId
  let rs ← routes
  let s ← index
  return ⟨id, rs, s⟩

/-- Ask for things in an order, and at last for everything. -/
def session : List Access → Action Derived
  | [] => askAll
  | a :: rest => do
    ask a
    session rest

def indexFirst : List Access → Bool
  | [] => false
  | .moduleId :: rest => indexFirst rest
  | .routes :: _ => false
  | .index :: _ => true

/-- What a session turns on: the routes if they come first, the index if it comes before the
routes, and else neither. -/
def decisive (order : List Access) : Access :=
  if order.head? = some .routes then .routes
  else if indexFirst order then .index
  else .moduleId

/-! ## What is asked for -/

def identified (d : Document) : String × Document :=
  match d.madeModuleId with
  | some id => (id, d)
  | none =>
    (d.ids.fresh d.moduleName,
      { d with
        ids := (d.ids.allocate d.moduleName).2
        madeModuleId := some (d.ids.fresh d.moduleName) })

def navigation (d : Document) (id : String) : Html.Navigation :=
  ⟨d.config.rendering, id⟩

/-- The index of a document under an identifier, made of the page as it stands, and the document
once it has it. -/
def freshIndex (d : Document) (id : String) : String × Document :=
  let n := (Heading.anchorFound d.ids d.tree).1
  let s := (d.navigation id).text (n.find Html.Navigation.isHeading)
  (s, { d.withPage (d.draft.page.refresh n) with
    ids := (Heading.anchorFound d.ids d.tree).2
    madeIndex := some s })

def indexed (d : Document) : String × Document :=
  match d.madeIndex with
  | some s => (s, d)
  | none => d.identified.2.freshIndex d.identified.1

def routed (d : Document) (rs : Routes) (log : List Notice) : Document :=
  { d.progressed (Page.renew d.draft.page.blocks (Heading.anchorTops d.ids d.draft.page.nodes).1)
      (Heading.anchorTops d.ids d.draft.page.nodes).2 log with madeRoutes := some rs }

theorem identified_of_some {d : Document} {id : String} (h : d.madeModuleId = some id) :
    d.identified = (id, d) := by
  rw [identified, h]

theorem indexed_of_some {d : Document} {s : String} (h : d.madeIndex = some s) :
    d.indexed = (s, d) := by
  rw [indexed, h]

theorem moduleId_apply (d : Document) : moduleId d = .ok d.identified.1 d.identified.2 := by
  unfold moduleId identified
  simp only [bind, EStateM.bind, get_apply]
  cases d.madeModuleId <;> rfl

theorem index_apply (d : Document) : index d = .ok d.indexed.1 d.indexed.2 := by
  unfold index indexed
  simp only [bind, EStateM.bind, get_apply]
  cases d.madeIndex with
  | some s => rfl
  | none =>
    simp only [EStateM.bind, moduleId_apply]
    rfl

theorem routes_of_some {d : Document} {rs : Routes} (h : d.madeRoutes = some rs) :
    routes d = .ok rs d := by
  unfold routes
  simp only [bind, EStateM.bind, get_apply, h]
  rfl

theorem routes_of_none {d d' : Document} {rs : Routes} (hlabels : d.draft.page.WellLabelled)
    (hnone : d.madeRoutes = none) (h : routes d = .ok rs d') :
    ∃ log, group d.renderer none [] d.log (Heading.anchorRoutes d.ids d.tree).1.children =
        some (rs, log) ∧ d' = d.routed rs log := by
  unfold routes at h
  obtain ⟨d₀, d₁, hget, h⟩ := bind_ok h
  cases hget
  rw [hnone] at h
  obtain ⟨rs₁, d₂, hroutes, h⟩ := bind_ok h
  obtain ⟨⟨⟩, d₃, hmodify, h⟩ := bind_ok h
  cases hmodify
  cases h
  obtain ⟨log, hgroup, rfl⟩ := routesFrom_ok hlabels (List.nil_append _).symm hroutes
  exact ⟨log, hgroup, rfl⟩

/-! ## The page after each -/

theorem tree_routed (d : Document) (rs : Routes) (log : List Notice) :
    (d.routed rs log).tree = (Heading.anchorRoutes d.ids d.tree).1 := by
  have hlength := Heading.length_anchorTops d.ids d.draft.page.nodes
  rw [Page.nodes, List.length_map] at hlength
  exact congrArg (Node.element d.draft.page.name d.draft.page.attributes)
    (Page.map_node_renew hlength)

theorem ids_routed (d : Document) (rs : Routes) (log : List Notice) :
    (d.routed rs log).ids = (Heading.anchorRoutes d.ids d.tree).2 :=
  rfl

theorem anchorFound_toNode (p : Page) (ids : Identifiers) :
    ∃ as' cs', (Heading.anchorFound ids p.toNode).1 = .element p.name as' cs' ∧
      cs'.length = p.blocks.length := by
  obtain ⟨as', cs', heq, hlength⟩ := Heading.anchorFound_element ids p.name p.attributes p.nodes
  rw [Page.nodes, List.length_map] at hlength
  exact ⟨as', cs', heq, hlength⟩

theorem toNode_refresh_anchorFound (p : Page) (ids : Identifiers) :
    (p.refresh (Heading.anchorFound ids p.toNode).1).toNode = (Heading.anchorFound ids p.toNode).1 := by
  obtain ⟨as', cs', htree, hlength⟩ := anchorFound_toNode p ids
  rw [htree]
  exact congrArg (Node.element p.name as') (Page.map_node_renew hlength)

theorem wellLabelled_refresh_anchorFound {p : Page} (h : p.WellLabelled) (ids : Identifiers) :
    (p.refresh (Heading.anchorFound ids p.toNode).1).WellLabelled := by
  obtain ⟨as', cs', htree, hlength⟩ := anchorFound_toNode p ids
  have hrenew := Page.wellLabelled_renew h hlength
  rw [htree]
  exact ⟨hrenew.nodup, hrenew.below⟩

theorem tree_freshIndex (d : Document) (id : String) :
    (d.freshIndex id).2.tree = (Heading.anchorFound d.ids d.tree).1 :=
  toNode_refresh_anchorFound d.draft.page d.ids

/-! ## What stays from then on -/

/-- The labels of the page are in order, and a document with an index has an identifier. -/
structure Settled (d : Document) : Prop where
  labelled : d.draft.page.WellLabelled
  identified : d.madeIndex.isSome = true → d.madeModuleId.isSome = true

theorem madeModuleId_identified (d : Document) :
    d.identified.2.madeModuleId = some d.identified.1 := by
  rw [identified]
  cases h : d.madeModuleId with
  | none => rfl
  | some id => exact h

/-- Identifying a document changes its pool and its identifier only. -/
theorem identified_frame (d : Document) :
    d.identified.2.config = d.config ∧ d.identified.2.draft = d.draft ∧
      d.identified.2.log = d.log ∧ d.identified.2.madeRoutes = d.madeRoutes ∧
      d.identified.2.madeIndex = d.madeIndex ∧
      d.identified.2.ids.fallback = d.ids.fallback := by
  rw [identified]
  cases d.madeModuleId <;> exact ⟨rfl, rfl, rfl, rfl, rfl, rfl⟩

theorem identified_identified (d : Document) :
    d.identified.2.identified = d.identified :=
  identified_of_some (madeModuleId_identified d)

theorem Settled.identify {d : Document} (h : d.Settled) : d.identified.2.Settled := by
  obtain ⟨-, hdraft, -, -, -, -⟩ := identified_frame d
  refine ⟨hdraft ▸ h.labelled, fun _ => ?_⟩
  rw [madeModuleId_identified]
  rfl

theorem madeIndex_indexed (d : Document) : d.indexed.2.madeIndex = some d.indexed.1 := by
  rw [indexed]
  cases h : d.madeIndex with
  | none => rfl
  | some s => exact h

theorem madeModuleId_indexed {d : Document} (h : d.Settled) :
    d.indexed.2.madeModuleId = some d.identified.1 := by
  rw [indexed]
  cases hindex : d.madeIndex with
  | none => exact madeModuleId_identified d
  | some s =>
    obtain ⟨id, hid⟩ := Option.isSome_iff_exists.1 (h.identified (hindex ▸ rfl))
    rw [identified_of_some hid]
    exact hid

theorem indexed_identified {d : Document} (h : d.Settled) : d.identified.2.indexed = d.indexed := by
  cases hindex : d.madeIndex with
  | none =>
    have hindex' := (identified_frame d).2.2.2.2.1.trans hindex
    rw [indexed, indexed, hindex, hindex', identified_identified]
  | some s =>
    obtain ⟨id, hid⟩ := Option.isSome_iff_exists.1 (h.identified (hindex ▸ rfl))
    rw [identified_of_some hid]

theorem madeRoutes_indexed (d : Document) : d.indexed.2.madeRoutes = d.madeRoutes := by
  rw [indexed]
  cases d.madeIndex with
  | none => exact (identified_frame d).2.2.2.1
  | some s => rfl

theorem Settled.indexed {d : Document} (h : d.Settled) : d.indexed.2.Settled := by
  refine ⟨?_, fun _ => by rw [madeModuleId_indexed h]; rfl⟩
  rw [Document.indexed]
  cases d.madeIndex with
  | none => exact wellLabelled_refresh_anchorFound h.identify.labelled _
  | some s => exact h.labelled

theorem routes_frame {d d' : Document} {rs : Routes} (hd : d.Settled) (h : routes d = .ok rs d') :
    d'.madeRoutes = some rs ∧ d'.madeModuleId = d.madeModuleId ∧ d'.madeIndex = d.madeIndex ∧
      d'.Settled := by
  cases hroutes : d.madeRoutes with
  | some rs' =>
    rw [routes_of_some hroutes] at h
    cases h
    exact ⟨hroutes, rfl, rfl, hd⟩
  | none =>
    obtain ⟨log, -, rfl⟩ := routes_of_none hd.labelled hroutes h
    have hlength := Heading.length_anchorTops d.ids d.draft.page.nodes
    rw [Page.nodes, List.length_map] at hlength
    exact ⟨rfl, rfl, rfl, Page.wellLabelled_renew hd.labelled hlength, hd.identified⟩

/-! ## Sessions -/

section
variable {d d' : Document} {rs : Routes} (rest : List Access)

theorem session_moduleId (d : Document) :
    session (.moduleId :: rest) d = session rest d.identified.2 := by
  simp only [session, ask, bind, EStateM.bind, moduleId_apply]
  rfl

theorem session_index (d : Document) : session (.index :: rest) d = session rest d.indexed.2 := by
  simp only [session, ask, bind, EStateM.bind, index_apply]
  rfl

theorem session_routes_of_ok (h : routes d = .ok rs d') :
    session (.routes :: rest) d = session rest d' := by
  simp only [session, ask, bind, EStateM.bind, h]
  rfl

theorem session_routes_of_error {f : Fault} (h : routes d = .error f d') :
    session (.routes :: rest) d = .error f d' := by
  simp only [session, ask, bind, EStateM.bind, h]

theorem session_nil (d : Document) :
    session [] d =
      match routes d.identified.2 with
      | .ok rs d' => .ok ⟨d.identified.1, rs, d'.indexed.1⟩ d'.indexed.2
      | .error f d' => .error f d' := by
  simp only [session, askAll, bind, EStateM.bind, moduleId_apply]
  cases routes d.identified.2 with
  | ok rs d' =>
    simp only [index_apply]
    rfl
  | error f d' => rfl

theorem session_nil_identified (d : Document) : session [] d.identified.2 = session [] d := by
  rw [session_nil, identified_identified, session_nil]

/-- With an identifier it makes no difference whether the routes are asked for beforehand. -/
theorem session_routes_of_identified (hd : d.Settled) {id : String} (h : d.madeModuleId = some id) :
    session [.routes] d = session [] d := by
  cases hroutes : routes d with
  | ok rs d' =>
    obtain ⟨hmade, hid, -, -⟩ := routes_frame hd hroutes
    rw [session_routes_of_ok [] hroutes, session_nil, session_nil, identified_of_some h,
      identified_of_some (hid.trans h)]
    simp only [hroutes, routes_of_some hmade]
  | error f d' =>
    rw [session_routes_of_error [] hroutes, session_nil, identified_of_some h]
    simp only [hroutes]

/-- Once there are routes, order makes no difference. -/
theorem session_of_routes (hd : d.Settled) (h : d.madeRoutes = some rs) :
    session rest d = session [] d := by
  induction rest generalizing d with
  | nil => rfl
  | cons a rest ih =>
    cases a with
    | moduleId =>
      have hkept := (identified_frame d).2.2.2.1
      rw [session_moduleId, ih hd.identify (hkept.trans h), session_nil_identified]
    | routes => rw [session_routes_of_ok rest (routes_of_some h), ih hd h]
    | index =>
      have hroutes : d.indexed.2.madeRoutes = some rs := (madeRoutes_indexed d).trans h
      have hroutes' : d.identified.2.madeRoutes = some rs := (identified_frame d).2.2.2.1.trans h
      rw [session_index, ih hd.indexed hroutes, session_nil, session_nil,
        identified_of_some (madeModuleId_indexed hd), routes_of_some hroutes, routes_of_some hroutes']
      simp only [indexed_of_some (madeIndex_indexed d), indexed_identified hd]

/-- After the routes, order makes no difference. -/
theorem session_routes (hd : d.Settled) : session (.routes :: rest) d = session [.routes] d := by
  cases hroutes : routes d with
  | ok rs d' =>
    obtain ⟨hmade, -, -, hd'⟩ := routes_frame hd hroutes
    rw [session_routes_of_ok rest hroutes, session_routes_of_ok [] hroutes,
      session_of_routes rest hd' hmade]
  | error f d' => rw [session_routes_of_error rest hroutes, session_routes_of_error [] hroutes]

/-- Once there is an index, order makes no difference. -/
theorem session_of_index (hd : d.Settled) {s : String} (h : d.madeIndex = some s) :
    session rest d = session [] d := by
  obtain ⟨id, hid⟩ := Option.isSome_iff_exists.1 (hd.identified (h ▸ rfl))
  induction rest with
  | nil => rfl
  | cons a rest ih =>
    cases a with
    | moduleId => rw [session_moduleId, identified_of_some hid, ih]
    | routes => rw [session_routes rest hd, session_routes_of_identified hd hid]
    | index => rw [session_index, indexed_of_some h, ih]

theorem session_index_first (hd : d.Settled) : session (.index :: rest) d = session [.index] d := by
  rw [session_index, session_index, session_of_index rest hd.indexed (madeIndex_indexed d)]

/-- Once there is an identifier, all that counts is whether the index comes before the routes. -/
theorem session_of_identified (hd : d.Settled) {id : String} (h : d.madeModuleId = some id) :
    session rest d = session (if indexFirst rest then [.index] else []) d := by
  induction rest with
  | nil => rfl
  | cons a rest ih =>
    cases a with
    | moduleId =>
      rw [session_moduleId, identified_of_some h]
      exact ih
    | routes => exact (session_routes rest hd).trans (session_routes_of_identified hd h)
    | index => exact session_index_first rest hd

/-- A session ends, well or not, as the one that asks for the decisive thing beforehand. -/
theorem session_eq (hd : d.Settled) (order : List Access) :
    session order d = session [decisive order] d := by
  have hnil : session [.moduleId] d = session [] d := by
    rw [session_moduleId, session_nil_identified]
  cases order with
  | nil => exact hnil.symm
  | cons a rest =>
    cases a with
    | moduleId =>
      have hrest := session_of_identified rest hd.identify (madeModuleId_identified d)
      have hdecisive : decisive (.moduleId :: rest) =
          if indexFirst rest then .index else .moduleId := rfl
      rw [session_moduleId, hrest, hdecisive]
      cases indexFirst rest with
      | true => rw [if_pos rfl, if_pos rfl, session_index, indexed_identified hd, ← session_index]
      | false => exact (session_nil_identified d).trans hnil.symm
    | routes => exact session_routes rest hd
    | index => exact session_index_first rest hd

end

end RouteDocs.Document
