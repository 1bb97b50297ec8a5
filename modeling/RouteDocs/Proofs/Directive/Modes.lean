import RouteDocs.Proofs.Directive.Grown
import RouteDocs.Proofs.Directive.Section

/-!
# Strict and lenient runs

A strict run does what a lenient one does until the first request that cannot be
met. There it fails, and the lenient run notes the failure and goes on. So a
strict run ends well exactly if the lenient one skips nothing, and what it
leaves behind when it fails is what the lenient run has at that moment: the
merges made so far, nothing put in for the request that failed, and every node
of the page in its place.

Results:
* `carryOut_modes`: a request in both modes.
* `scan_error`, `carryOutAll_error`: how far a scan has come that fails.
* `run_of_comesTo`: a run that comes to a request goes on from there.
* `present_of_comesTo`: the nodes of the page are there when a run comes to a request.
* `run_ends_iff`, `run_error_modes`: when a strict run ends well, and how it fails.
* `run_modes`: a strict run and a lenient one of the same page.
-/
namespace RouteDocs

namespace Directive

/-! ## What is noted -/

/-- Work that has gone on without a warning. -/
def GoesOn (w w' : Work) : Prop :=
  ∃ notices, w'.log = w.log ++ notices ∧ ∀ n ∈ notices, n.level = .debug

theorem GoesOn.refl (w : Work) : GoesOn w w :=
  ⟨[], (List.append_nil w.log).symm, nofun⟩

theorem GoesOn.trans {w₁ w₂ w₃ : Work} (h : GoesOn w₁ w₂) (h' : GoesOn w₂ w₃) : GoesOn w₁ w₃ := by
  obtain ⟨notices, hlog, hquiet⟩ := h
  obtain ⟨notices', hlog', hquiet'⟩ := h'
  refine ⟨notices ++ notices', by rw [hlog', hlog, List.append_assoc], fun n hn => ?_⟩
  rcases List.mem_append.1 hn with hn | hn
  · exact hquiet n hn
  · exact hquiet' n hn

theorem goesOn_merged (w : Work) (into : String) (r : Request) (source : Nat) :
    GoesOn w (w.merged into r source) := by
  refine ⟨_, log_merged w into r source, fun n hn => ?_⟩
  rcases List.mem_append.1 hn with hn | hn
  · obtain ⟨withHeading, position, rfl⟩ := eq_inserted_of_mem_ensureList hn
    rfl
  · obtain rfl := List.mem_singleton.1 hn
    rfl

/-- What has been noted stays. -/
theorem keeps_log_carryOut (rules : DirectiveRules) (log : List Notice)
    (routeSection : Option String) (r : Request) :
    Keeps (fun w => log <+: w.log) (carryOut rules routeSection r) := by
  intro w hw
  rcases finalWork_carryOut rules routeSection r w with
    ⟨notices, h | h⟩ | ⟨into, source, -, -, h⟩
  · rw [h]
    exact hw.trans (List.prefix_append _ _)
  · rw [h]
    exact hw.trans (List.prefix_append _ _)
  · obtain ⟨notices, hlog, -⟩ := goesOn_merged w into r source
    rw [h, hlog]
    exact hw.trans (List.prefix_append _ _)

theorem keeps_log_scan (rules : DirectiveRules) (log : List Notice) (routeSection : Option String)
    (bs : List Block) : Keeps (fun w => log <+: w.log) (scan rules routeSection bs) := by
  have hanywhere : ∀ into : String, True := fun _ => trivial
  exact keeps_scan (fun s r _ => keeps_log_carryOut rules log s r) (fun _ _ _ _ hw => hw)
    (fun into _ => hanywhere into) fun b _ _ => hanywhere b.node.flatten

/-! ## A request in both modes -/

section
variable {target : String} {w w' : Work} {m : Nat} {f : Fault} {routeSection : Option String}

/-- A request is met in both modes with the same effect. One that cannot be met leaves the page as
it is: it ends a strict run and is noted by a lenient one. -/
theorem carryOut_modes (target : String) (routeSection : Option String) (r : Request) (w : Work) :
    (∃ m w', carryOut ⟨target, true⟩ routeSection r w = .ok m w' ∧
      carryOut ⟨target, false⟩ routeSection r w = .ok m w' ∧ GoesOn w w') ∨
    ∃ f w', carryOut ⟨target, true⟩ routeSection r w = .error f w' ∧
      carryOut ⟨target, false⟩ routeSection r w = .ok 0 (w'.note [.skipped f]) ∧
      w'.log = w.log ∧ w'.draft.page = w.draft.page := by
  cases routeSection with
  | none => exact .inr ⟨.outsideSection r.kind r.reference, w, rfl, rfl, rfl, rfl⟩
  | some into =>
    cases hl : w.draft.lookup ⟨some r.reference, some r.kind.label⟩ with
    | none =>
      refine .inr ⟨.sourceMissing r.kind r.reference into, w.withCatalog, ?_, ?_, rfl, rfl⟩
      · rw [carryOut_missing hl]
        rfl
      · rw [carryOut_missing hl]
        rfl
    | some source =>
      exact .inl ⟨1, w.merged into r source, carryOut_found hl, carryOut_found hl,
        goesOn_merged w into r source⟩

theorem carryOut_ok_modes {r : Request}
    (h : carryOut ⟨target, true⟩ routeSection r w = .ok m w') :
    carryOut ⟨target, false⟩ routeSection r w = .ok m w' ∧ GoesOn w w' := by
  rcases carryOut_modes target routeSection r w with
    ⟨m₁, w₁, hstrict, hlenient, hgoes⟩ | ⟨f, w₁, hstrict, -, -, -⟩
  · cases h.symm.trans hstrict
    exact ⟨hlenient, hgoes⟩
  · cases h.symm.trans hstrict

theorem carryOut_error_modes {r : Request}
    (h : carryOut ⟨target, true⟩ routeSection r w = .error f w') :
    carryOut ⟨target, false⟩ routeSection r w = .ok 0 (w'.note [.skipped f]) ∧
      w'.log = w.log ∧ w'.draft.page = w.draft.page := by
  rcases carryOut_modes target routeSection r w with
    ⟨m₁, w₁, hstrict, -, -⟩ | ⟨f₁, w₁, hstrict, hlenient, hlog, hpage⟩
  · cases h.symm.trans hstrict
  · cases h.symm.trans hstrict
    exact ⟨hlenient, hlog, hpage⟩

/-! ## What a strict run does, a lenient one does -/

theorem carryOutAll_ok_modes {rs : List Request}
    (h : carryOutAll ⟨target, true⟩ routeSection rs w = .ok m w') :
    carryOutAll ⟨target, false⟩ routeSection rs w = .ok m w' ∧ GoesOn w w' := by
  induction rs generalizing w m with
  | nil =>
    cases h
    exact ⟨rfl, GoesOn.refl _⟩
  | cons r rest ih =>
    rw [carryOutAll] at h ⊢
    obtain ⟨k, w₁, hfirst, h⟩ := bind_ok h
    obtain ⟨n, w₂, hrest, h⟩ := bind_ok h
    cases h
    obtain ⟨hfirst, hgoes⟩ := carryOut_ok_modes hfirst
    obtain ⟨hrest, hgoes'⟩ := ih hrest
    exact ⟨by rw [bind_of_ok hfirst, bind_of_ok hrest]; rfl, hgoes.trans hgoes'⟩

theorem scan_ok_modes {bs : List Block}
    (h : scan ⟨target, true⟩ routeSection bs w = .ok m w') :
    scan ⟨target, false⟩ routeSection bs w = .ok m w' ∧ GoesOn w w' := by
  induction bs generalizing routeSection w m with
  | nil =>
    cases h
    exact ⟨rfl, GoesOn.refl _⟩
  | cons b rest ih =>
    cases hfor : isFor target b.node with
    | true =>
      obtain ⟨k, w₁, n, hfirst, hscan, rfl⟩ := scan_directive_ok hfor h
      obtain ⟨hfirst, hgoes⟩ := carryOutAll_ok_modes hfirst
      obtain ⟨hscan, hgoes'⟩ := ih hscan
      have hlenient : isFor (⟨target, false⟩ : DirectiveRules).target b.node = true := hfor
      refine ⟨?_, hgoes.trans hgoes'⟩
      rw [scan_directive hlenient, bind_of_ok hfirst]
      exact bind_of_ok hscan _
    | false =>
      rw [scan_other hfor] at h
      rw [scan_other hfor]
      exact ih h

end

/-! ## How far a run comes that fails -/

section
variable {rules : DirectiveRules} {w w' : Work} {f : Fault} {routeSection : Option String}

theorem carryOutAll_append (rules : DirectiveRules) (routeSection : Option String)
    (rs rs' : List Request) :
    carryOutAll rules routeSection (rs ++ rs') = (do
      let m ← carryOutAll rules routeSection rs
      let n ← carryOutAll rules routeSection rs'
      return m + n) := by
  induction rs with
  | nil => simp only [List.nil_append, carryOutAll, pure_bind, Nat.zero_add, bind_pure]
  | cons r rest ih =>
    simp only [List.cons_append, carryOutAll, ih, bind_assoc, pure_bind, Nat.add_assoc]

/-- Of requests of which one fails, those before it have been carried out. -/
theorem carryOutAll_error {rs : List Request}
    (h : carryOutAll rules routeSection rs w = .error f w') :
    ∃ done r rest k w₁, rs = done ++ r :: rest ∧
      carryOutAll rules routeSection done w = .ok k w₁ ∧
      carryOut rules routeSection r w₁ = .error f w' := by
  induction rs generalizing w with
  | nil => cases h
  | cons r rest ih =>
    rw [carryOutAll] at h
    rcases bind_error h with h | ⟨k, w₁, hfirst, h⟩
    · exact ⟨[], r, rest, 0, w, rfl, rfl, h⟩
    · rcases bind_error h with h | ⟨n, w₂, -, h⟩
      · obtain ⟨done, r', rest', n, w₂, rfl, hdone, hfails⟩ := ih h
        refine ⟨r :: done, r', rest', k + n, w₂, rfl, ?_, hfails⟩
        rw [carryOutAll, bind_of_ok hfirst, bind_of_ok hdone]
        rfl
      · cases h

theorem scan_singleton_error {b : Block} (h : scan rules routeSection [b] w = .error f w') :
    isFor rules.target b.node = true ∧
      carryOutAll rules routeSection (Request.ofDirective b.node) w = .error f w' := by
  cases hfor : isFor rules.target b.node with
  | true =>
    rw [scan_directive hfor] at h
    rcases bind_error h with h | ⟨k, w₁, -, h⟩
    · exact ⟨rfl, h⟩
    · cases h
  | false =>
    rw [scan_other hfor] at h
    cases h

/-- A scan that fails has scanned the blocks in front of a directive. -/
theorem scan_error {bs : List Block} (h : scan rules routeSection bs w = .error f w') :
    ∃ before b after m w₁, bs = before ++ b :: after ∧ isFor rules.target b.node = true ∧
      scan rules routeSection before w = .ok m w₁ ∧
      carryOutAll rules (currentSection routeSection before) (Request.ofDirective b.node) w₁ =
        .error f w' := by
  induction bs generalizing routeSection w with
  | nil => cases h
  | cons b rest ih =>
    have happend (bs : List Block) : scan rules routeSection (b :: bs) = (do
        let m ← scan rules routeSection [b]
        let n ← scan rules (currentSection routeSection [b]) bs
        return m + n) := scan_append routeSection [b] bs
    rw [happend] at h
    rcases bind_error h with h | ⟨k, w₁, hfirst, h⟩
    · obtain ⟨hfor, hfails⟩ := scan_singleton_error h
      exact ⟨[], b, rest, 0, w, rfl, hfor, rfl, hfails⟩
    · rcases bind_error h with h | ⟨n, w₂, -, h⟩
      · obtain ⟨before, c, after, m, w₂, rfl, hfor, hscan, hfails⟩ := ih h
        refine ⟨b :: before, c, after, k + m, w₂, rfl, hfor, ?_, ?_⟩
        · rw [happend, bind_of_ok hfirst, bind_of_ok hscan]
          rfl
        · rw [← currentSection_append] at hfails
          exact hfails
      · cases h

/-- A run comes to a request, with the work as it then stands: the blocks before its directive are
scanned, and the requests before it on the directive are carried out. -/
def ComesTo (rules : DirectiveRules) (w : Work) (routeSection : Option String) (r : Request)
    (moment : Work) : Prop :=
  ∃ before b after done rest m k w₁, w.draft.page.blocks = before ++ b :: after ∧
    isFor rules.target b.node = true ∧ Request.ofDirective b.node = done ++ r :: rest ∧
    routeSection = currentSection none before ∧ scan rules none before w = .ok m w₁ ∧
    carryOutAll rules routeSection done w₁ = .ok k moment

/-- A run that comes to a request carries it out and proceeds; what is noted by then stays. -/
theorem run_of_comesTo {r : Request} {moment : Work} (h : ComesTo rules w routeSection r moment) :
    ∃ proceed : Nat → Step Nat,
      (∀ n log, Keeps (fun w => log <+: w.log) (proceed n)) ∧
      run rules w = (carryOut rules routeSection r >>= proceed) moment := by
  obtain ⟨before, b, after, done, rest, m, k, w₁, hpage, hfor, hreq, rfl, hscan, hdone⟩ := h
  refine ⟨fun n => do
    let j ← carryOutAll rules (currentSection none before) rest
    modify fun w => w.marked b.label
    let i ← scan rules (currentSection none before) after
    modify Work.excised
    return m + (k + (n + j) + i), fun n log => ?_, ?_⟩
  · refine keeps_bind (keeps_carryOutAll fun r _ => keeps_log_carryOut rules log _ r) fun j => ?_
    refine keeps_bind (keeps_modify fun w hw => hw) fun _ => ?_
    refine keeps_bind (keeps_log_scan rules log _ after) fun i => ?_
    exact keeps_bind (keeps_modify fun w hw => hw) fun _ => keeps_pure _
  · rw [run_cut hpage hfor, bind_of_ok hscan, hreq, carryOutAll_append]
    simp only [bind_assoc]
    rw [bind_of_ok hdone, carryOutAll]
    simp only [bind_assoc, pure_bind]

theorem run_error (h : run rules w = .error f w') :
    ∃ routeSection r moment, ComesTo rules w routeSection r moment ∧
      carryOut rules routeSection r moment = .error f w' := by
  rw [run_apply] at h
  cases hscan : scan rules none w.draft.page.blocks w with
  | ok m w₁ =>
    rw [hscan] at h
    cases h
  | error f₁ w₁ =>
    rw [hscan] at h
    cases h
    obtain ⟨before, b, after, m, w₂, hpage, hfor, hbefore, hfails⟩ := scan_error hscan
    obtain ⟨done, r, rest, k, w₃, hreq, hdone, hfails⟩ := carryOutAll_error hfails
    exact ⟨currentSection none before, r, w₃,
      ⟨before, b, after, done, rest, m, k, w₂, hpage, hfor, hreq, rfl, hbefore, hdone⟩, hfails⟩

end

/-- Where a strict run comes, a lenient run comes, without a warning. -/
theorem ComesTo.modes {target : String} {w moment : Work} {routeSection : Option String}
    {r : Request} (h : ComesTo ⟨target, true⟩ w routeSection r moment) :
    ComesTo ⟨target, false⟩ w routeSection r moment ∧ GoesOn w moment := by
  obtain ⟨before, b, after, done, rest, m, k, w₁, hpage, hfor, hreq, hs, hscan, hdone⟩ := h
  obtain ⟨hscan, hgoes⟩ := scan_ok_modes hscan
  obtain ⟨hdone, hgoes'⟩ := carryOutAll_ok_modes hdone
  exact ⟨⟨before, b, after, done, rest, m, k, w₁, hpage, hfor, hreq, hs, hscan, hdone⟩,
    hgoes.trans hgoes'⟩

/-! ## What is still there -/

/-- What may have become of a node of the page during a run: it is as it was, a list with other
terms, or a directive that has been marked. -/
def Kept (n m : Node) : Prop :=
  m = n ∨ (n.isA .definitionList = true ∧ ∃ cs, m = n.withChildren cs) ∨
    (n.isA .directive = true ∧ m = mark n)

/-- The nodes that the page had at the start are on it, in their order. -/
structure Present (start : List Block) (p : Page) : Prop where
  ordered : (Page.labels start).Sublist (Page.labels p.blocks)
  kept : ∀ b ∈ start, ∃ c ∈ p.blocks, c.label = b.label ∧ Kept b.node c.node

section
variable {start : List Block} {p : Page} {n m : Node}

theorem not_list_of_directive (h : n.isA .directive = true) : n.isA .definitionList = false :=
  Node.isA_eq_false h nofun

theorem Kept.isA (h : Kept n m) (k : Kind) : m.isA k = n.isA k := by
  rcases h with rfl | ⟨-, cs, rfl⟩ | ⟨-, rfl⟩
  · rfl
  · exact DefinitionList.isA_withChildren n cs k
  · rw [Node.isA, kind?_mark, Node.isA]

theorem Kept.mergeList (h : Kept n m) (hlist : n.isA .definitionList = true) (source : Node) :
    Kept n (source.mergeList m) := by
  rcases h with rfl | ⟨-, cs, rfl⟩ | ⟨hdir, -⟩
  · exact .inr (.inl ⟨hlist, _, rfl⟩)
  · refine .inr (.inl ⟨hlist, DefinitionList.merge source.children (n.withChildren cs).children, ?_⟩)
    rw [Node.mergeList]
    cases n <;> rfl
  · rw [not_list_of_directive hdir] at hlist
    cases hlist

theorem mark_mark (n : Node) : mark (mark n) = mark n := by
  cases n with
  | text s => rfl
  | element name as cs =>
    simp only [mark, Node.withAttributes, Node.attributes, Entries.put_put]

theorem Kept.mark (h : Kept n m) (hdir : n.isA .directive = true) : Kept n (Directive.mark m) := by
  rcases h with rfl | ⟨hlist, -⟩ | ⟨-, rfl⟩
  · exact .inr (.inr ⟨hdir, rfl⟩)
  · rw [not_list_of_directive hdir] at hlist
    cases hlist
  · exact .inr (.inr ⟨hdir, mark_mark n⟩)

theorem Present.insertAt (h : Present start p) (position : Nat) (new : List Node) :
    Present start (p.insertAt position new) := by
  refine ⟨h.ordered.trans ?_, fun b hb => ?_⟩
  · have hsplit : p.blocks.Sublist (p.insertAt position new).blocks := by
      conv => lhs; rw [← List.take_append_drop position p.blocks]
      exact ((List.sublist_append_left _ _)).append (List.Sublist.refl _)
    exact hsplit.map _
  · obtain ⟨c, hc, hlabel, hkept⟩ := h.kept b hb
    exact ⟨c, Page.mem_blocks_insertAt.2 (.inl hc), hlabel, hkept⟩

theorem Present.modify (h : Present start p) {l : Nat} {f : Node → Node}
    (hf : ∀ b ∈ start, b.label = l → ∀ n, Kept b.node n → Kept b.node (f n)) :
    Present start (p.modify l f) := by
  refine ⟨?_, fun b hb => ?_⟩
  · have hlabels : Page.labels (p.modify l f).blocks = Page.labels p.blocks :=
      Page.labels_modifyBlocks l f p.blocks
    rw [hlabels]
    exact h.ordered
  · obtain ⟨c, hc, hlabel, hkept⟩ := h.kept b hb
    refine ⟨_, Page.mem_modifyBlocks.2 ⟨c, hc, rfl⟩, hlabel, ?_⟩
    dsimp only
    split
    · rename_i hl
      exact hf b hb (hlabel.symm.trans hl) _ hkept
    · exact hkept

theorem present_execute {d d' : Draft} {e : Errand} (hgrown : Grown start d)
    (hs : e.StandsIn start) (he : execute d e = some d') (h : Present start d.page) :
    Present start d'.page := by
  obtain ⟨into, source, n, hinto, -, -, -, rfl⟩ := execute_found hgrown he
  have hscope := hs into hinto
  have hensured : Present start (d.ensureList into e.request.kind.label).1.page := by
    rcases Draft.page_ensureList d into e.request.kind.label with heq | ⟨position, withHeading, heq⟩
    · rw [heq]
      exact h
    · rw [heq]
      exact h.insertAt position _
  have hgrown' := hgrown.ensureList hscope e.request.kind.label
  have hfile := Draft.lookup_ensureList hgrown.coherent (hgrown.hasSection hscope)
    e.request.kind.label
  refine hensured.modify fun b hb hl m hm => hm.mergeList ?_ n
  -- the block that is merged into is a list, and it was one at the start
  obtain ⟨c, hc, hlabel, hkept⟩ := hensured.kept b hb
  rw [← hkept.isA]
  exact hgrown'.coherent.isList hgrown'.labelled hfile hc (hlabel.trans hl)

theorem present_markAll {d : Draft} {ls : List Nat} (h : Present start d.page)
    (hls : ∀ l ∈ ls, ∀ b ∈ start, b.label = l → b.node.isA .directive = true) :
    Present start (markAll d ls).page := by
  induction ls generalizing d with
  | nil => exact h
  | cons l ls ih =>
    have hrest := fun k hk => hls k (List.mem_cons_of_mem l hk)
    refine ih (d := marked d l) (h.modify fun b hb hl m hm => ?_) hrest
    exact hm.mark (hls l List.mem_cons_self b hb hl)

end

/-- The section that a scan is in is one that it has passed, unless it has been in it all along. -/
theorem inScope_currentSection {bs : List Block} {routeSection : Option String} {into : String}
    (h : currentSection routeSection bs = some into) :
    routeSection = some into ∨ InScope bs into := by
  induction bs generalizing routeSection with
  | nil => exact .inl h
  | cons b rest ih =>
    rw [currentSection, List.foldl_cons] at h
    rcases ih h with hs | ⟨c, hc, hs⟩
    · split at hs
      · rename_i h3
        exact .inr ⟨b, List.mem_cons_self, h3, Option.some.inj hs⟩
      · exact .inl hs
    · exact .inr ⟨c, List.mem_cons_of_mem b hc, hs⟩

theorem executeAll_markAll {d : Draft} {ls : List Nat} (hls : ∀ l ∈ ls, l < d.page.nextLabel)
    (es : List Errand) :
    executeAll (markAll d ls) es = (markAll (executeAll d es).1 ls, (executeAll d es).2) := by
  induction ls generalizing d with
  | nil => rfl
  | cons l ls ih =>
    have hrest : ∀ k ∈ ls, k < (marked d l).page.nextLabel := fun k hk =>
      hls k (List.mem_cons_of_mem l hk)
    rw [markAll, List.foldl_cons, ← markAll, ih hrest, executeAll_marked (hls l List.mem_cons_self)]
    rfl

theorem draft_of_comesTo {rules : DirectiveRules} {w moment : Work} {routeSection : Option String}
    {r : Request} (hlabels : w.draft.page.WellLabelled)
    (h : ComesTo rules w routeSection r moment) :
    ∃ es before after, w.draft.page.blocks = before ++ after ∧
      (∀ e ∈ es, e.StandsIn w.draft.page.blocks) ∧
      Same moment.draft
        (markAll (executeAll w.draft es).1 (directiveLabels rules.target before)) := by
  obtain ⟨before, b, after, done, rest, m, k, w₁, hpage, -, -, rfl, hscan, hdone⟩ := h
  have hbefore : ∀ c ∈ before, c ∈ w.draft.page.blocks := fun c hc =>
    hpage ▸ List.mem_append_left _ hc
  have hbelow : ∀ c ∈ before, c.label < w.draft.page.nextLabel := fun c hc =>
    hlabels.below c (List.mem_append_left _ (hbefore c hc))
  have hwider : ∀ {into}, InScope before into → InScope w.draft.page.blocks into :=
    fun ⟨c, hc, hs⟩ => ⟨c, hbefore c hc, hs⟩
  obtain ⟨hsame, -, -⟩ := scan_ok hbelow hscan
  obtain ⟨hsame', -, -⟩ := carryOutAll_ok hdone
  refine ⟨errandsFrom rules.target none (before.map (·.node)) ++
    done.map (⟨currentSection none before, ·⟩), before, b :: after, hpage, fun e he into hinto => ?_,
    ?_⟩
  · rcases List.mem_append.1 he with he | he
    · exact hwider ((inScope_of_mem_errandsFrom he hinto).resolve_left nofun)
    · obtain ⟨r', -, rfl⟩ := List.mem_map.1 he
      exact hwider ((inScope_currentSection hinto).resolve_left nofun)
  · have hgrown := nextLabel_executeAll w.draft
      (errandsFrom rules.target none (before.map (·.node)))
    have hmarks : ∀ l ∈ directiveLabels rules.target before,
        l < (executeAll w.draft (errandsFrom rules.target none
          (before.map (·.node)))).1.page.nextLabel := by
      intro l hl
      obtain ⟨c, hc, rfl⟩ := List.mem_map.1 hl
      exact Nat.lt_of_lt_of_le (hbelow c (List.mem_filter.1 hc).1) hgrown
    have hdone' := (hsame.executeAll (done.map (⟨currentSection none before, ·⟩))).1
    rw [executeAll_markAll hmarks] at hdone'
    rw [executeAll_append]
    exact hsame'.trans hdone'

/-- When a run comes to a request, the nodes of the page are there, in their order. -/
theorem present_of_comesTo {rules : DirectiveRules} {p : Page} (hlabels : p.WellLabelled)
    {log : List Notice} {moment : Work} {routeSection : Option String} {r : Request}
    (h : ComesTo rules ⟨Draft.ofPage p, log⟩ routeSection r moment) :
    Present p.blocks moment.draft.page := by
  obtain ⟨es, before, after, hblocks, hstands, hsame⟩ := draft_of_comesTo hlabels h
  have hblocks : p.blocks = before ++ after := hblocks
  have hstands : ∀ e ∈ es, e.StandsIn p.blocks := hstands
  have hstart : Present p.blocks (Draft.ofPage p).page :=
    ⟨List.Sublist.refl _, fun b hb => ⟨b, hb, rfl, .inl rfl⟩⟩
  have hexecuted : Present p.blocks (executeAll (Draft.ofPage p) es).1.page :=
    keeps_executeAll (Q := fun d => Present p.blocks d.page) (grown_ofPage hlabels) hstands
      (fun _ _ _ hgrown hs he hd => present_execute hgrown hs he hd) hstart
  rw [hsame.page]
  refine present_markAll hexecuted fun l hl b hb hbl => ?_
  -- a label of the page belongs to one block
  obtain ⟨c, hc, hcl⟩ := List.mem_map.1 hl
  obtain ⟨hc, hfor⟩ := List.mem_filter.1 hc
  have hc : c ∈ p.blocks := hblocks ▸ List.mem_append_left _ hc
  obtain rfl := Page.eq_of_label_eq hlabels (List.mem_append_left _ hb) (List.mem_append_left _ hc)
    (hbl.trans hcl.symm)
  exact isDirective_of_isFor hfor

/-! ## A run in both modes -/

theorem run_ok_modes {target : String} {w w' : Work} {m : Nat}
    (h : run ⟨target, true⟩ w = .ok m w') :
    run ⟨target, false⟩ w = .ok m w' ∧ GoesOn w w' := by
  rw [run_apply] at h ⊢
  cases hscan : scan ⟨target, true⟩ none w.draft.page.blocks w with
  | error f w₁ =>
    rw [hscan] at h
    cases h
  | ok k w₁ =>
    rw [hscan] at h
    cases h
    obtain ⟨hscan, hgoes⟩ := scan_ok_modes hscan
    rw [hscan]
    exact ⟨rfl, hgoes⟩

/-- Where a strict run fails, the lenient run skips its first request. -/
theorem run_error_modes {target : String} {w w' w₁ : Work} {f : Fault} {m : Nat}
    (h : run ⟨target, true⟩ w = .error f w') (hrun : run ⟨target, false⟩ w = .ok m w₁) :
    ∃ routeSection r moment v, ComesTo ⟨target, false⟩ w routeSection r moment ∧
      GoesOn w moment ∧ w'.draft.page = moment.draft.page ∧
      carryOut ⟨target, false⟩ routeSection r moment = .ok 0 v ∧
      v.draft.page = moment.draft.page ∧ v.log = moment.log ++ [.skipped f] ∧ v.log <+: w₁.log := by
  obtain ⟨routeSection, r, moment, hcomes, hfails⟩ := run_error h
  obtain ⟨hcomes, hgoes⟩ := hcomes.modes
  obtain ⟨hskips, hlog, hpage⟩ := carryOut_error_modes hfails
  refine ⟨routeSection, r, moment, w'.note [.skipped f], hcomes, hgoes, hpage, hskips, hpage,
    congrArg (· ++ _) hlog, ?_⟩
  obtain ⟨proceed, hkeeps, heq⟩ := run_of_comesTo hcomes
  have hfinal := hkeeps 0 (w'.note [.skipped f]).log _ (List.prefix_refl _)
  rw [hrun, bind_of_ok hskips] at heq
  rw [finalWork, ← heq] at hfinal
  exact hfinal

/-- A strict run ends well exactly if the lenient one skips nothing. -/
theorem run_ends_iff {target : String} {w w₁ : Work} {m : Nat} (hw : w.log = [])
    (hrun : run ⟨target, false⟩ w = .ok m w₁) :
    (∃ m' w', run ⟨target, true⟩ w = .ok m' w') ↔ ∀ f, .skipped f ∉ w₁.log := by
  refine ⟨?_, fun hskips => ?_⟩
  · rintro ⟨m', w', h⟩ f hf
    obtain ⟨h, notices, hlog, hquiet⟩ := run_ok_modes h
    cases h.symm.trans hrun
    rw [hlog, hw, List.nil_append] at hf
    cases hquiet _ hf
  · cases h : run ⟨target, true⟩ w with
    | ok m' w' => exact ⟨m', w', rfl⟩
    | error f w' =>
      obtain ⟨-, -, moment, v, -, -, -, -, -, hlog, hnoted⟩ := run_error_modes h hrun
      have hlast : .skipped f ∈ v.log := hlog ▸ List.mem_append_right _ List.mem_cons_self
      exact absurd (List.IsPrefix.subset hnoted hlast) (hskips f)

theorem find?_warning {w w' : Work} (h : GoesOn w w') (hw : w.log = []) (f : Fault)
    (rest : List Notice) :
    (w'.log ++ .skipped f :: rest).find? (fun n => n.level == .warning) = some (.skipped f) := by
  obtain ⟨notices, hlog, hquiet⟩ := h
  have hnone : notices.find? (fun n => n.level == .warning) = none := by
    refine List.find?_eq_none.2 fun n hn => ?_
    rw [hquiet n hn]
    decide
  rw [hlog, hw, List.nil_append, List.find?_append, hnone]
  rfl

/-- A strict run and a lenient run of the same page. The lenient one ends well. The strict one ends
well exactly if the lenient one skips nothing, and then both make the same of the page. If the
strict one fails, its failure is the first warning of the lenient one, it leaves the page that the
lenient one has when it comes to that request, and every node of the page is there, in its order. -/
theorem run_modes (target name : String) (as : Attributes) (cs : List Node) :
    let p := Page.ofElement name as cs
    let start : Work := ⟨Draft.ofPage p, []⟩
    ∃ m w, run ⟨target, false⟩ start = .ok m w ∧
      ((∃ m' w', run ⟨target, true⟩ start = .ok m' w') ↔ ∀ f, .skipped f ∉ w.log) ∧
      (∀ m' w', run ⟨target, true⟩ start = .ok m' w' →
        m' = m ∧ w'.draft.page.toNode = w.draft.page.toNode) ∧
      ∀ f w', run ⟨target, true⟩ start = .error f w' →
        w.log.find? (fun n => n.level == .warning) = some (.skipped f) ∧
        (Notice.skipped f).message = "Skipping directive: " ++ f.message ∧
        (∃ routeSection r moment v, ComesTo ⟨target, false⟩ start routeSection r moment ∧
          carryOut ⟨target, false⟩ routeSection r moment = .ok 0 v ∧
          v.log = moment.log ++ [.skipped f] ∧ v.log <+: w.log ∧
          v.draft.page = moment.draft.page ∧ w'.draft.page = moment.draft.page) ∧
        Present p.blocks w'.draft.page := by
  intro p start
  have hlabels : p.WellLabelled := Page.wellLabelled_ofElement name as cs
  have hends : EndsWell (run ⟨target, false⟩) := run_lenient rfl
  obtain ⟨m, w, hrun⟩ := hends start
  refine ⟨m, w, hrun, run_ends_iff rfl hrun, fun m' w' h => ?_, fun f w' h => ?_⟩
  · cases (run_ok_modes h).1.symm.trans hrun
    exact ⟨rfl, rfl⟩
  · obtain ⟨routeSection, r, moment, v, hcomes, hgoes, hpage, hskips, hkept, hlog, hnoted⟩ :=
      run_error_modes h hrun
    refine ⟨?_, rfl, ⟨routeSection, r, moment, v, hcomes, hskips, hlog, hnoted, hkept, hpage⟩, ?_⟩
    · obtain ⟨rest, hrest⟩ := hnoted
      rw [← hrest, hlog, List.append_assoc]
      exact find?_warning hgoes rfl f rest
    · rw [hpage]
      exact present_of_comesTo hlabels hcomes

end Directive
end RouteDocs
