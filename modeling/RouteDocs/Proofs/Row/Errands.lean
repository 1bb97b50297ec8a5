import RouteDocs.Proofs.Directive.Terms
import RouteDocs.Proofs.Row.Put

/-!
# Errands on a row of nodes

An errand reads one list of a row and adds to another of the same kind; `done`
says what becomes of the row. Errands of different kinds read and change
different lists, and what they put in they can put in in either order. So
neither notices whether the other has been done.

Results:
* `list?_done`: an errand leaves the lists of the other kind.
* `resolves_done`, `done_comm`: errands of different kinds can be done in either order.
* `nodes_execute`, `nodes_execute_none`: a draft under errands has the nodes of the row under
  errands.
-/
namespace RouteDocs.Row

open Directive (Errand Grown execute execute_found execute_eq_none_iff listAt?_execute)

/-! ## Making sure of a list -/

def HasSection (routeSection : String) (ns : List Node) : Prop :=
  ∃ n ∈ ns, n.isA .head3 = true ∧ n.flatten = routeSection

instance (routeSection : String) (ns : List Node) : Decidable (HasSection routeSection ns) :=
  inferInstanceAs (Decidable (∃ n ∈ ns, n.isA .head3 = true ∧ n.flatten = routeSection))

/-- The row with the list of a kind in a section put in, unless it is there. -/
def ensure (routeSection kind : String) (ns : List Node) : List Node :=
  if (list? ⟨some routeSection, some kind⟩ .start ns).isSome then ns
  else put routeSection kind .nothing ns

section
variable {S T kind : String} {f : Node → Node} {k p : Place} {ns : List Node}

theorem label_ne {kind kind' : ListKind} (h : kind ≠ kind') : kind.label ≠ kind'.label := by
  cases kind <;> cases kind' <;> first | exact absurd rfl h | decide

theorem place_ne {kind kind' : ListKind} (h : kind ≠ kind') (s s' : Option String) :
    (⟨s, some kind.label⟩ : Place) ≠ ⟨s', some kind'.label⟩ :=
  fun hplace => label_ne h (Option.some.inj (congrArg Place.subsection hplace))

theorem keepsKind_mergeList (source : Node) : KeepsKind source.mergeList := by
  intro n
  cases n <;> rfl

theorem ensure_of_some {n : Node} (h : list? ⟨some S, some kind⟩ .start ns = some n) :
    ensure S kind ns = ns := by
  rw [ensure, h, Option.isSome_some, if_pos rfl]

theorem ensure_of_none (h : list? ⟨some S, some kind⟩ .start ns = none) :
    ensure S kind ns = put S kind .nothing ns := by
  rw [ensure, h, Option.isSome_none, if_neg Bool.false_ne_true]

theorem mem_change {n : Node} (h : n ∈ ns) (hlist : n.isA .definitionList = false) :
    n ∈ change k f p ns := by
  induction ns generalizing p with
  | nil => cases h
  | cons m rest ih =>
    rw [change]
    split
    · rename_i hm
      rcases List.mem_cons.1 h with rfl | h
      · rw [hm.1] at hlist
        cases hlist
      · exact List.mem_cons_of_mem _ h
    · rcases List.mem_cons.1 h with rfl | h
      · exact List.mem_cons_self
      · exact List.mem_cons_of_mem _ (ih h)

theorem mem_put {n : Node} {passed : Draft.Passed} (h : n ∈ ns) : n ∈ put S kind passed ns := by
  induction ns generalizing passed with
  | nil => cases h
  | cons m rest ih =>
    rw [put]
    split
    · exact List.mem_append_right _ h
    · rcases List.mem_cons.1 h with rfl | h
      · exact List.mem_cons_self
      · exact List.mem_cons_of_mem _ (ih h)

theorem HasSection.change (h : HasSection S ns) : HasSection S (change k f p ns) := by
  obtain ⟨n, hn, h3, rfl⟩ := h
  exact ⟨n, mem_change hn (Node.isA_eq_false h3 nofun), h3, rfl⟩

theorem HasSection.ensure (h : HasSection S ns) : HasSection S (ensure T kind ns) := by
  obtain ⟨n, hn, h3, rfl⟩ := h
  unfold Row.ensure
  split
  · exact ⟨n, hn, h3, rfl⟩
  · exact ⟨n, mem_put hn, h3, rfl⟩

theorem list?_ensure (hsection : HasSection S ns) (k : Place) :
    list? k .start (ensure S kind ns) =
      if ⟨some S, some kind⟩ = k then some ((list? k .start ns).getD Node.newDefinitionList)
      else list? k .start ns := by
  cases hhere : list? ⟨some S, some kind⟩ .start ns with
  | some n =>
    rw [ensure_of_some hhere]
    split
    · rename_i hk
      subst hk
      rw [hhere, Option.getD_some]
    · rfl
  | none =>
    have hfits : Fits S kind .start ns .nothing := hsection
    rw [ensure_of_none hhere, list?_put hfits hhere]
    split
    · rename_i hk
      subst hk
      rw [hhere, Option.getD_none]
    · rfl

/-- A list can be made sure of before or after the list of another place is changed. -/
theorem ensure_change (hf : KeepsKind f) (hk : k ≠ ⟨some S, some kind⟩)
    (hsection : HasSection S ns) :
    ensure S kind (change k f .start ns) = change k f .start (ensure S kind ns) := by
  have hlist := list?_change hf k ⟨some S, some kind⟩ .start ns
  rw [if_neg hk.symm] at hlist
  cases hhere : list? ⟨some S, some kind⟩ .start ns with
  | some n => rw [ensure_of_some hhere, ensure_of_some (hlist.trans hhere)]
  | none =>
    rw [ensure_of_none hhere, ensure_of_none (hlist.trans hhere)]
    exact change_put hf hk hsection

/-- Lists of two places can be made sure of in either order if they can be put in so. -/
theorem ensure_comm_of_put {kind' : String} (hS : HasSection S ns) (hT : HasSection T ns)
    (hne : (⟨some S, some kind⟩ : Place) ≠ ⟨some T, some kind'⟩)
    (hput : put S kind .nothing (put T kind' .nothing ns) =
      put T kind' .nothing (put S kind .nothing ns)) :
    ensure S kind (ensure T kind' ns) = ensure T kind' (ensure S kind ns) := by
  have hfirst : list? ⟨some S, some kind⟩ .start (ensure T kind' ns) = _ := list?_ensure hT _
  have hsecond : list? ⟨some T, some kind'⟩ .start (ensure S kind ns) = _ := list?_ensure hS _
  rw [if_neg hne.symm] at hfirst
  rw [if_neg hne] at hsecond
  cases hhere : list? ⟨some S, some kind⟩ .start ns with
  | some n => rw [ensure_of_some hhere, ensure_of_some (hfirst.trans hhere)]
  | none =>
    rw [ensure_of_none (hfirst.trans hhere)]
    cases hthere : list? ⟨some T, some kind'⟩ .start ns with
    | some n =>
      rw [ensure_of_some hthere, ensure_of_some (hsecond.trans hthere), ensure_of_none hhere]
    | none =>
      rw [ensure_of_none (hsecond.trans hthere), ensure_of_none hthere, ensure_of_none hhere]
      exact hput

theorem ensure_comm (hS : HasSection S ns) (hT : HasSection T ns) :
    ensure S ListKind.input.label (ensure T ListKind.output.label ns) =
      ensure T ListKind.output.label (ensure S ListKind.input.label ns) := by
  have hkind : ListKind.input ≠ ListKind.output := nofun
  have hfits : Fits S ListKind.input.label .start ns .nothing := hS
  exact ensure_comm_of_put hS hT (place_ne hkind _ _) (put_comm hfits hT)

end

/-! ## Errands -/

/-- The row with the list of a kind in a section, put in if it is missing, that has taken in a
list. -/
def takeIn (source : Node) (into : String) (kind : ListKind) (ns : List Node) : List Node :=
  change ⟨some into, some kind.label⟩ source.mergeList .start (ensure into kind.label ns)

/-- Whether an errand can be executed: it stands in a section and its source has a list. -/
def resolves (ns : List Node) (e : Errand) : Bool :=
  e.routeSection.isSome && (list? e.source .start ns).isSome

/-- The row after an errand; as it was if the errand cannot be executed. -/
def done (ns : List Node) (e : Errand) : List Node :=
  match e.routeSection, list? e.source .start ns with
  | some into, some source => takeIn source into e.request.kind ns
  | _, _ => ns

/-- An errand stands in a section of a row. -/
def InSection (ns : List Node) (e : Errand) : Prop :=
  ∃ into, e.routeSection = some into ∧ HasSection into ns

section
variable {kind kind' : ListKind} {into into' : String} {n n' : Node} {ns : List Node} {e e' : Errand}

theorem list?_takeIn (hsection : HasSection into ns) (h : kind ≠ kind') (s : Option String) :
    list? ⟨s, some kind'.label⟩ .start (takeIn n into kind ns) =
      list? ⟨s, some kind'.label⟩ .start ns := by
  rw [takeIn, list?_change (keepsKind_mergeList n), if_neg (place_ne h.symm _ _),
    list?_ensure hsection, if_neg (place_ne h _ _)]

/-- Lists of different kinds can take in others in either order. -/
theorem takeIn_comm (h : kind ≠ kind') (hinto : HasSection into ns) (hinto' : HasSection into' ns) :
    takeIn n into kind (takeIn n' into' kind' ns) =
      takeIn n' into' kind' (takeIn n into kind ns) := by
  have hensure : ensure into kind.label (ensure into' kind'.label ns) =
      ensure into' kind'.label (ensure into kind.label ns) := by
    cases kind with
    | input =>
      cases kind' with
      | input => exact absurd rfl h
      | output => exact ensure_comm hinto hinto'
    | output =>
      cases kind' with
      | input => exact (ensure_comm hinto' hinto).symm
      | output => exact absurd rfl h
  unfold takeIn
  rw [ensure_change (keepsKind_mergeList n') (place_ne h.symm _ _) hinto.ensure,
    ensure_change (keepsKind_mergeList n) (place_ne h _ _) hinto'.ensure, hensure]
  exact change_comm (keepsKind_mergeList n) (keepsKind_mergeList n') (place_ne h _ _) _ _

theorem done_of_some (he : e.routeSection = some into) (h : list? e.source .start ns = some n) :
    done ns e = takeIn n into e.request.kind ns := by
  rw [done, he, h]

theorem done_of_none (h : list? e.source .start ns = none) : done ns e = ns := by
  rw [done, h]
  cases e.routeSection <;> rfl

theorem HasSection.done {S : String} (h : HasSection S ns) : HasSection S (done ns e) := by
  unfold Row.done
  split
  · exact h.ensure.change
  · exact h

theorem InSection.done (h : InSection ns e) : InSection (done ns e') e := by
  obtain ⟨into, hinto, hsection⟩ := h
  exact ⟨into, hinto, hsection.done⟩

/-- An errand leaves the lists of the other kind. -/
theorem list?_done (h : InSection ns e) (hkind : e.request.kind ≠ kind) (s : Option String) :
    list? ⟨s, some kind.label⟩ .start (done ns e) = list? ⟨s, some kind.label⟩ .start ns := by
  obtain ⟨into, hinto, hsection⟩ := h
  cases hsource : list? e.source .start ns with
  | none => rw [done_of_none hsource]
  | some n => rw [done_of_some hinto hsource, list?_takeIn hsection hkind]

/-- Whether an errand can be executed does not depend on an errand of the other kind. -/
theorem resolves_done (h : InSection ns e') (hkind : e'.request.kind ≠ e.request.kind) :
    resolves (done ns e') e = resolves ns e := by
  rw [resolves, Errand.source, list?_done h hkind, resolves, Errand.source]

/-- Errands of different kinds can be done in either order. -/
theorem done_comm (h : InSection ns e) (h' : InSection ns e')
    (hkind : e.request.kind ≠ e'.request.kind) : done (done ns e') e = done (done ns e) e' := by
  obtain ⟨into, hinto, hsection⟩ := h
  obtain ⟨into', hinto', hsection'⟩ := h'
  have hsource : list? e.source .start (done ns e') = list? e.source .start ns :=
    list?_done ⟨into', hinto', hsection'⟩ hkind.symm _
  have hsource' : list? e'.source .start (done ns e) = list? e'.source .start ns :=
    list?_done ⟨into, hinto, hsection⟩ hkind _
  cases hn : list? e.source .start ns with
  | none => rw [done_of_none (hsource.trans hn), done_of_none hn]
  | some n =>
    rw [done_of_some hinto (hsource.trans hn)]
    cases hn' : list? e'.source .start ns with
    | none =>
      rw [done_of_none (hsource'.trans hn'), done_of_none hn', done_of_some hinto hn]
    | some n' =>
      rw [done_of_some hinto' (hsource'.trans hn'), done_of_some hinto' hn', done_of_some hinto hn]
      exact takeIn_comm hkind hsection hsection'

end

/-! ## Drafts -/

section
variable {start bs : List Block} {d d' : Draft} {e : Errand} {k p : Place} {l : Nat} {kind : String}

theorem get?_placed_cons (k p : Place) (b : Block) (rest : List Block) :
    Entries.get? (Catalog.placed p (b :: rest)) k =
      if b.node.isA .definitionList = true ∧ p = k then some b.label
      else Entries.get? (Catalog.placed (p.after b.node) rest) k := by
  rw [Catalog.placed, Entries.get?_append]
  by_cases hlist : b.node.isA .definitionList = true
  · by_cases hp : p = k <;> simp [hlist, hp, Entries.get?]
  · simp [hlist, Entries.get?]

theorem list?_of_get?_none (h : Entries.get? (Catalog.placed p bs) k = none) :
    list? k p (bs.map (·.node)) = none := by
  induction bs generalizing p with
  | nil => rfl
  | cons b rest ih =>
    rw [get?_placed_cons] at h
    split at h
    · cases h
    · rename_i hb
      rw [List.map_cons, list?_cons_of_not hb]
      exact ih h

theorem exists_split (h : Entries.get? (Catalog.placed p bs) k = some l) :
    ∃ before b after, bs = before ++ b :: after ∧ b.label = l ∧
      b.node.isA .definitionList = true ∧ p.afterAll (before.map (·.node)) = k ∧
      list? k p (before.map (·.node)) = none := by
  induction bs generalizing p with
  | nil => cases h
  | cons b rest ih =>
    rw [get?_placed_cons] at h
    split at h
    · rename_i hb
      cases h
      exact ⟨[], b, rest, rfl, rfl, hb.1, hb.2, rfl⟩
    · rename_i hb
      obtain ⟨before, c, after, rfl, hl, hlist, hplace, hnone⟩ := ih h
      refine ⟨b :: before, c, after, rfl, hl, hlist, hplace, ?_⟩
      rw [List.map_cons, list?_cons_of_not hb]
      exact hnone

theorem list?_split {ns ms : List Node} {n : Node} (hlist : n.isA .definitionList = true)
    (hplace : p.afterAll ns = k) (hnone : list? k p ns = none) :
    list? k p (ns ++ n :: ms) = some n := by
  rw [list?_append, hnone, hplace, list?_cons_of_list hlist rfl]
  rfl

theorem change_split {f : Node → Node} {ns ms : List Node} {n : Node}
    (hlist : n.isA .definitionList = true) (hplace : p.afterAll ns = k)
    (hnone : list? k p ns = none) : change k f p (ns ++ n :: ms) = ns ++ f n :: ms := by
  rw [change_append_of_none f hnone, hplace, change, if_pos ⟨hlist, rfl⟩]

theorem list?_nodes (hlabels : d.page.WellLabelled) (hd : d.Coherent) (k : Place) :
    list? k .start d.page.nodes = d.listAt? k := by
  have hlookup := hd k
  rw [Draft.lookup_rebuild] at hlookup
  rw [Draft.listAt?, Page.nodes, hlookup]
  cases h : Entries.get? (Catalog.placed .start d.page.blocks) k with
  | none => exact list?_of_get?_none h
  | some l =>
    obtain ⟨before, b, after, hblocks, rfl, hlist, hplace, hnone⟩ := exists_split h
    have hb : b ∈ d.page.blocks := hblocks ▸ List.mem_append_right _ List.mem_cons_self
    rw [Option.bind_some, (Page.node?_eq_some_iff hlabels).2 (List.mem_append_left _ hb), hblocks,
      List.map_append, List.map_cons]
    exact list?_split hlist hplace hnone

theorem nodes_modify (hlabels : d.page.WellLabelled) (hd : d.Coherent)
    (hl : d.lookup k = some l) (f : Node → Node) :
    (d.page.modify l f).nodes = change k f .start d.page.nodes := by
  rw [hd, Draft.lookup_rebuild] at hl
  obtain ⟨before, b, after, hblocks, rfl, hlist, hplace, hnone⟩ := exists_split hl
  rw [Page.modify_at hlabels hblocks, Page.nodes, Page.nodes, hblocks]
  simp only [List.map_append, List.map_cons]
  exact (change_split hlist hplace hnone).symm

theorem nodes_ensureList (hlabels : d.page.WellLabelled) (hd : d.Coherent) {into : String}
    (hsection : ∃ b ∈ d.page.blocks, b.node.isA .head3 = true ∧ b.node.flatten = into) :
    (d.ensureList into kind).1.page.nodes = ensure into kind d.page.nodes := by
  have hlist := list?_nodes hlabels hd ⟨some into, some kind⟩
  cases h : d.lookup ⟨some into, some kind⟩ with
  | some l =>
    obtain ⟨n, -, hn, -⟩ := hd.node?_lookup hlabels h
    rw [Draft.listAt?, h, Option.bind_some, hn] at hlist
    rw [Draft.ensureList_of_some h, ensure_of_some hlist]
    rfl
  | none =>
    rw [Draft.listAt?, h, Option.bind_none] at hlist
    obtain ⟨before, after, withHeading, -, -, hspot⟩ := Draft.locate_of_none hd hsection h
    have heq := Draft.ensureList_of_missing h hspot
    obtain ⟨i, hi, hput⟩ := put_of_locate hspot
    rw [Nat.zero_add] at hi
    rw [heq, ensure_of_none hlist, Page.nodes, Page.nodes, hput, ← hi]
    exact Page.nodes_insertAt d.page _ _

/-- A draft executes the errands that the row resolves, and then has the row's nodes. -/
theorem nodes_execute (h : Grown start d) (hs : e.StandsIn start) (he : execute d e = some d') :
    resolves d.page.nodes e = true ∧ d'.page.nodes = done d.page.nodes e := by
  obtain ⟨n, hn, -⟩ := listAt?_execute h hs he
  obtain ⟨into, source, n', hinto, hsource, hb, -, rfl⟩ := execute_found h he
  have hnode : d.page.node? source = some n' :=
    (Page.node?_eq_some_iff h.labelled).2 (List.mem_append_left _ hb)
  have hread : d.listAt? e.source = some n' := by
    rw [Draft.listAt?, Errand.source, hsource, Option.bind_some, hnode]
  cases hn.symm.trans hread
  have hlist := (list?_nodes h.labelled h.coherent e.source).trans hread
  have hscope := hs into hinto
  have hsection := h.hasSection hscope
  have hensured := h.ensureList hscope e.request.kind.label
  refine ⟨by rw [resolves, hinto, hlist]; rfl, ?_⟩
  rw [done_of_some hinto hlist, takeIn, ← nodes_ensureList h.labelled h.coherent hsection]
  exact nodes_modify hensured.labelled hensured.coherent
    (Draft.lookup_ensureList h.coherent hsection _) _

/-- What a draft does not execute the row does not resolve. -/
theorem nodes_execute_none (h : Grown start d) (he : execute d e = none) :
    resolves d.page.nodes e = false ∧ done d.page.nodes e = d.page.nodes := by
  rcases execute_eq_none_iff.1 he with hinto | hsource
  · exact ⟨by rw [resolves, hinto]; rfl, by rw [done, hinto]⟩
  · have hlist := list?_nodes h.labelled h.coherent e.source
    rw [Draft.listAt?, Errand.source, hsource, Option.bind_none] at hlist
    exact ⟨by rw [resolves, Errand.source, hlist]; exact Bool.and_false _, done_of_none hlist⟩

end

end RouteDocs.Row
