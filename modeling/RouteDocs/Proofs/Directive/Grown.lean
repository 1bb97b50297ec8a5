import RouteDocs.Proofs.Directive.Coherent
import RouteDocs.Proofs.Directive.Scan

/-!
# The page under errands

Errands put headings and lists in and rewrite lists; everything else on the page
stays under its label as it is. So no errand disturbs a heading that opens a
section or a directive that is still to come, and what is found on file is
always a list on the page.

Results:
* `keeps_executeAll`: what each errand keeps, a row of errands keeps.
* `grown_execute`, `grown_executeAll`: errands keep all but lists.
* `execute_found`, `forall_execute`: what an errand does to the blocks.
* `inScope_of_mem_errands`: an errand stands in a section of the page.
* `filter_markAll`, `page_run`: what is left of the page at the end of a run.
* `root_run`, `unmarked_run`, `forall_run`: what is the same after a run.
-/
namespace RouteDocs.Directive

/-- The draft of a page that had certain blocks and has been worked on by errands. -/
structure Grown (start : List Block) (d : Draft) : Prop where
  labelled : d.page.WellLabelled
  coherent : d.Coherent
  kept : ∀ b ∈ start, b.node.isA .definitionList = false → b ∈ d.page.blocks
  added : ∀ b ∈ d.page.blocks,
    b ∈ start ∨ b.node.isA .definitionList = true ∨ b.node.isA .head4 = true

theorem grown_ofPage {p : Page} (h : p.WellLabelled) : Grown p.blocks (Draft.ofPage p) :=
  ⟨h, Draft.coherent_ofPage p, fun _ hb _ => hb, fun _ hb => .inl hb⟩

namespace Grown

variable {start : List Block} {d : Draft}

theorem hasSection (h : Grown start d) {routeSection : String} (hs : InScope start routeSection) :
    ∃ b ∈ d.page.blocks, b.node.isA .head3 = true ∧ b.node.flatten = routeSection := by
  obtain ⟨b, hb, h3, rfl⟩ := hs
  exact ⟨b, h.kept b hb (Node.isA_eq_false h3 nofun), h3, rfl⟩

theorem isA_scaffold {kind : String} {withHeading : Bool} {n : Node}
    (h : n ∈ Draft.scaffold kind withHeading) :
    n.isA .definitionList = true ∨ n.isA .head4 = true := by
  rcases List.mem_append.1 h with h | h
  · split at h
    · rw [List.mem_singleton.1 h]
      exact .inr rfl
    · cases h
  · rw [List.mem_singleton.1 h]
    exact .inl rfl

theorem ensureList (h : Grown start d) {into : String} (hinto : InScope start into)
    (kind : String) : Grown start (d.ensureList into kind).1 := by
  have hcoherent : (d.ensureList into kind).1.Coherent :=
    Draft.coherent_ensureList h.coherent (h.hasSection hinto)
  rcases Draft.page_ensureList d into kind with heq | ⟨position, withHeading, heq⟩
  · exact ⟨heq ▸ h.labelled, hcoherent, heq ▸ h.kept, heq ▸ h.added⟩
  · refine ⟨heq ▸ Page.wellLabelled_insertAt h.labelled _ _, hcoherent, fun b hb hlist => ?_,
      fun b hb => ?_⟩
    · rw [heq, Page.mem_blocks_insertAt]
      exact .inl (h.kept b hb hlist)
    · rw [heq, Page.mem_blocks_insertAt] at hb
      rcases hb with hb | hb
      · exact h.added b hb
      · exact .inr (isA_scaffold (Page.node_mem_of_mem_label hb))

theorem mergeBlocks (h : Grown start d) {p : Place} {dest : Nat} (hdest : d.lookup p = some dest)
    (source : Nat) : Grown start { d with page := mergeBlocks d.page source dest } := by
  have hlist : ∀ b ∈ d.page.blocks, b.label = dest → b.node.isA .definitionList = true :=
    fun b hb hbl => h.coherent.isList h.labelled hdest hb hbl
  have hcoherent := h.coherent.withPage (placed_mergeBlocks source hlist _)
  rcases mergeBlocks_cases d.page source dest with heq | ⟨n, -, heq⟩
  · rw [heq]
    exact h
  · rw [heq] at hcoherent ⊢
    refine ⟨Page.wellLabelled_modify h.labelled _ _, hcoherent, fun b hb hother => ?_,
      fun b hb => ?_⟩
    · have hmem := h.kept b hb hother
      refine Page.mem_modifyBlocks.2 ⟨b, hmem, ?_⟩
      rw [if_neg fun hbl => by rw [hlist b hmem hbl] at hother; cases hother]
    · obtain ⟨c, hc, rfl⟩ := Page.mem_modifyBlocks.1 hb
      by_cases hcl : c.label = dest
      · rw [if_pos hcl]
        have hclist := hlist c hc hcl
        exact .inr (.inl (((alike_mergeList n hclist).isA _).trans hclist))
      · rw [if_neg hcl]
        exact h.added c hc

theorem mem_directiveLabels_iff (h : Grown start d) (target : String) {b : Block}
    (hb : b ∈ d.page.blocks) :
    b.label ∈ directiveLabels target start ↔ isFor target b.node = true := by
  rw [directiveLabels, List.mem_map]
  constructor
  · rintro ⟨c, hc, hlabel⟩
    obtain ⟨hc, hfor⟩ := List.mem_filter.1 hc
    have hkept := h.kept c hc (Node.isA_eq_false (isDirective_of_isFor hfor) (by decide))
    obtain rfl := Page.eq_of_label_eq h.labelled (List.mem_append_left _ hkept)
      (List.mem_append_left _ hb) hlabel
    exact hfor
  · intro hfor
    rcases h.added b hb with hstart | hlist | h4
    · exact ⟨b, List.mem_filter.2 ⟨hstart, hfor⟩, rfl⟩
    · rw [isFor_eq_false target hlist (by decide)] at hfor
      cases hfor
    · rw [isFor_eq_false target h4 (by decide)] at hfor
      cases hfor

end Grown

/-- The section of an errand, if it stands in one, is a section of the page at the start. -/
def Errand.StandsIn (start : List Block) (e : Errand) : Prop :=
  ∀ into, e.routeSection = some into → InScope start into

/-- An errand keeps all but lists, and puts in no more than headings and lists. -/
theorem grown_execute {start : List Block} {d d' : Draft} {e : Errand} (h : Grown start d)
    (hs : e.StandsIn start) (he : execute d e = some d') : Grown start d' := by
  obtain ⟨into, source, hinto, -, rfl⟩ := execute_eq_some_iff.1 he
  have hscope := hs into hinto
  exact (h.ensureList hscope e.request.kind.label).mergeBlocks
    (Draft.lookup_ensureList h.coherent (h.hasSection hscope) e.request.kind.label) source

/-- What every errand of a row keeps that is executed on a page under errands, the row keeps. -/
theorem keeps_executeAll {Q : Draft → Prop} {start : List Block} {d : Draft} {es : List Errand}
    (h : Grown start d) (hs : ∀ e ∈ es, e.StandsIn start)
    (hstep : ∀ d e d', Grown start d → e.StandsIn start → execute d e = some d' → Q d → Q d')
    (hd : Q d) : Q (executeAll d es).1 := by
  induction es generalizing d with
  | nil => exact hd
  | cons e rest ih =>
    have hhere := hs e List.mem_cons_self
    have hrest := fun e' he' => hs e' (List.mem_cons_of_mem e he')
    rw [executeAll]
    cases he : execute d e with
    | none => exact ih h hrest hd
    | some d' => exact ih (grown_execute h hhere he) hrest (hstep d e d' h hhere he hd)

/-- A row of errands keeps all but lists, and puts in no more than headings and lists. -/
theorem grown_executeAll {start : List Block} {d : Draft} {es : List Errand} (h : Grown start d)
    (hs : ∀ e ∈ es, e.StandsIn start) : Grown start (executeAll d es).1 :=
  keeps_executeAll h hs (fun _ _ _ _ hstands he hd => grown_execute hd hstands he) h

/-! ## What an errand does -/

/-- An errand that is executed finds its source, a list on the page, and has the list of its
section take it in. -/
theorem execute_found {start : List Block} {d d' : Draft} {e : Errand} (h : Grown start d)
    (he : execute d e = some d') :
    ∃ into source n, e.routeSection = some into ∧
      d.lookup ⟨some e.request.reference, some e.request.kind.label⟩ = some source ∧
      ⟨source, n⟩ ∈ d.page.blocks ∧ n.isA .definitionList = true ∧
      d' = { (d.ensureList into e.request.kind.label).1 with
        page := (d.ensureList into e.request.kind.label).1.page.modify
          (d.ensureList into e.request.kind.label).2.1 n.mergeList } := by
  obtain ⟨into, source, hinto, hsource, rfl⟩ := execute_eq_some_iff.1 he
  obtain ⟨⟨l, n⟩, hb, rfl, hlist⟩ := h.coherent.mem_blocks hsource
  have hnode : d.page.node? l = some n :=
    (Page.node?_eq_some_iff h.labelled).2 (List.mem_append_left _ hb)
  have hthere : (d.ensureList into e.request.kind.label).1.page.node? l = some n := by
    rcases Draft.page_ensureList d into e.request.kind.label with heq | ⟨position, withHeading, heq⟩
    · rw [heq, hnode]
    · rw [heq, Page.node?_insertAt h.labelled hnode]
  refine ⟨into, l, n, hinto, hsource, hb, hlist, ?_⟩
  simp only [mergeBlocks, hthere]

/-- What all blocks satisfy is kept by an errand if what it puts in satisfies it and the list that
takes in another does. -/
theorem forall_execute {P : Node → Prop}
    (hnew : ∀ kind withHeading, ∀ n ∈ Draft.scaffold kind withHeading, P n)
    (hmerge : ∀ n m, n.isA .definitionList = true → P n → P m → P (n.mergeList m))
    {start : List Block} {d d' : Draft} {e : Errand} (h : Grown start d)
    (he : execute d e = some d') (hP : ∀ b ∈ d.page.blocks, P b.node) :
    ∀ b ∈ d'.page.blocks, P b.node := by
  obtain ⟨into, source, n, -, -, hsource, hlist, rfl⟩ := execute_found h he
  have hensured : ∀ b ∈ (d.ensureList into e.request.kind.label).1.page.blocks, P b.node := by
    rcases Draft.page_ensureList d into e.request.kind.label with heq | ⟨position, withHeading, heq⟩
    · rwa [heq]
    · rw [heq]
      intro b hb
      rcases Page.mem_blocks_insertAt.1 hb with hb | hb
      · exact hP b hb
      · exact hnew _ _ _ (Page.node_mem_of_mem_label hb)
  intro b hb
  obtain ⟨c, hc, rfl⟩ := Page.mem_modifyBlocks.1 hb
  dsimp only
  split
  · exact hmerge n c.node hlist (hP _ hsource) (hensured c hc)
  · exact hensured c hc

theorem forall_executeAll {P : Node → Prop}
    (hnew : ∀ kind withHeading, ∀ n ∈ Draft.scaffold kind withHeading, P n)
    (hmerge : ∀ n m, n.isA .definitionList = true → P n → P m → P (n.mergeList m))
    {start : List Block} {d : Draft} {es : List Errand} (h : Grown start d)
    (hs : ∀ e ∈ es, e.StandsIn start) (hP : ∀ b ∈ d.page.blocks, P b.node) :
    ∀ b ∈ (executeAll d es).1.page.blocks, P b.node :=
  keeps_executeAll (Q := fun d => ∀ b ∈ d.page.blocks, P b.node) h hs
    (fun _ _ _ hgrown _ he hd => forall_execute hnew hmerge hgrown he hd) hP

theorem root_executeAll (d : Draft) (es : List Errand) :
    (executeAll d es).1.page.name = d.page.name ∧
      (executeAll d es).1.page.attributes = d.page.attributes := by
  have hexecute : ∀ {d d' : Draft} {e : Errand}, execute d e = some d' →
      d'.page.name = d.page.name ∧ d'.page.attributes = d.page.attributes := by
    intro d d' e he
    obtain ⟨into, source, -, -, rfl⟩ := execute_eq_some_iff.1 he
    have hensured : (d.ensureList into e.request.kind.label).1.page.name = d.page.name ∧
        (d.ensureList into e.request.kind.label).1.page.attributes = d.page.attributes := by
      rcases Draft.page_ensureList d into e.request.kind.label with heq | ⟨position, withHeading, heq⟩
      · rw [heq]
        exact ⟨rfl, rfl⟩
      · rw [heq]
        exact ⟨rfl, rfl⟩
    rcases mergeBlocks_cases (d.ensureList into e.request.kind.label).1.page source
      (d.ensureList into e.request.kind.label).2.1 with heq | ⟨n, -, heq⟩
    · rw [heq]
      exact hensured
    · rw [heq]
      exact hensured
  induction es generalizing d with
  | nil => exact ⟨rfl, rfl⟩
  | cons e rest ih =>
    rw [executeAll]
    cases he : execute d e with
    | none => exact ih d
    | some d' =>
      obtain ⟨hname, hattributes⟩ := ih d'
      exact ⟨hname.trans (hexecute he).1, hattributes.trans (hexecute he).2⟩

/-! ## The sections of errands -/

theorem inScope_of_mem_errandsFrom {target : String} {bs : List Block} {routeSection : Option String}
    {e : Errand} (he : e ∈ errandsFrom target routeSection (bs.map (·.node))) {into : String}
    (hinto : e.routeSection = some into) : routeSection = some into ∨ InScope bs into := by
  induction bs generalizing routeSection with
  | nil => cases he
  | cons b rest ih =>
    have hlater : ∀ {s}, InScope rest s → InScope (b :: rest) s := by
      rintro s ⟨c, hc, hs⟩
      exact ⟨c, List.mem_cons_of_mem b hc, hs⟩
    rw [List.map_cons] at he
    cases hfor : isFor target b.node with
    | true =>
      rw [errandsFrom_directive hfor] at he
      rcases List.mem_append.1 he with he | he
      · obtain ⟨r, -, rfl⟩ := List.mem_map.1 he
        exact .inl hinto
      · exact (ih he).imp_right hlater
    | false =>
      rw [errandsFrom_other hfor] at he
      rcases ih he with hs | hs
      · split at hs
        · rename_i h3
          exact .inr ⟨b, List.mem_cons_self, h3, Option.some.inj hs⟩
        · exact .inl hs
      · exact .inr (hlater hs)

/-- An errand stands in a section of the page. -/
theorem inScope_of_mem_errands {target : String} {bs : List Block} {e : Errand}
    (he : e ∈ errands target (bs.map (·.node))) {into : String}
    (hinto : e.routeSection = some into) : InScope bs into := by
  rw [errands_eq] at he
  exact (inScope_of_mem_errandsFrom he hinto).resolve_left nofun

theorem standsIn_errands (target name : String) (as : Attributes) (cs : List Node) :
    ∀ e ∈ errands target cs, e.StandsIn (Page.ofElement name as cs).blocks := by
  intro e he into hinto
  have hnodes : (Page.ofElement name as cs).blocks.map (·.node) = cs := Page.map_node_label 0 cs
  rw [← hnodes] at he
  exact inScope_of_mem_errands he hinto

theorem grown_errands (target name : String) (as : Attributes) (cs : List Node) :
    Grown (Page.ofElement name as cs).blocks
      (executeAll (Draft.ofPage (Page.ofElement name as cs)) (errands target cs)).1 :=
  grown_executeAll (grown_ofPage (Page.wellLabelled_ofElement name as cs))
    (standsIn_errands target name as cs)

theorem isMarked_errands (target name : String) (as : Attributes) {cs : List Node}
    (hcs : ∀ n ∈ cs, isMarked n = false) :
    ∀ b ∈ (executeAll (Draft.ofPage (Page.ofElement name as cs)) (errands target cs)).1.page.blocks,
      isMarked b.node = false :=
  forall_executeAll (fun _ _ _ hn => isMarked_scaffold hn)
    (fun n m _ _ hm => (isMarked_mergeList n m).trans hm)
    (grown_ofPage (Page.wellLabelled_ofElement name as cs)) (standsIn_errands target name as cs)
    fun _ hb => hcs _ (Page.node_mem_of_mem_label hb)

/-! ## Taking off what is marked -/

theorem isMarked_mark {n : Node} {k : Kind} (h : n.isA k = true) : isMarked (mark n) = true := by
  obtain ⟨as, cs, rfl⟩ := Node.isA_iff.1 h
  have hmark : (mark (.element k.name as cs)).attribute? deleteKey = some (.bool true) := by
    rw [mark, Node.attribute?, Node.withAttributes, Node.attributes, Entries.get?_put, if_pos rfl]
  rw [isMarked, hmark]
  rfl

theorem filter_modifyBlocks_mark {l : Nat} (test : Nat → Bool) {bs : List Block}
    (h : ∀ b ∈ bs, b.label = l → b.node.isA .directive = true) :
    ((Page.modifyBlocks l mark bs).filter fun b => !isMarked b.node && test b.label) =
      bs.filter fun b => !isMarked b.node && (b.label != l && test b.label) := by
  induction bs with
  | nil => rfl
  | cons b rest ih =>
    have hrest := ih fun c hc => h c (List.mem_cons_of_mem b hc)
    rw [Page.modifyBlocks] at hrest
    rw [Page.modifyBlocks, List.map_cons, List.filter_cons, List.filter_cons, hrest]
    by_cases hb : b.label = l
    · have hmarked := isMarked_mark (h b List.mem_cons_self hb)
      simp [hb, hmarked]
    · have hne : (b.label != l) = true := by simpa using hb
      rw [if_neg hb, hne, Bool.true_and]

/-- What is left after several directives have been marked and what is marked is taken off. -/
theorem filter_markAll {d : Draft} {ls : List Nat}
    (h : ∀ b ∈ d.page.blocks, b.label ∈ ls → b.node.isA .directive = true) :
    ((markAll d ls).page.blocks.filter fun b => !isMarked b.node) =
      d.page.blocks.filter fun b => !isMarked b.node && !ls.contains b.label := by
  induction ls generalizing d with
  | nil => simp [markAll]
  | cons l ls ih =>
    have hmarked : ∀ b ∈ (marked d l).page.blocks, b.label ∈ ls → b.node.isA .directive = true := by
      intro b hb hbl
      obtain ⟨c, hc, rfl⟩ := Page.mem_modifyBlocks.1 hb
      have hdir := h c hc (List.mem_cons_of_mem l hbl)
      dsimp only
      split
      · exact ((alike_mark c.node).isA _).trans hdir
      · exact hdir
    have hhere : ∀ b ∈ d.page.blocks, b.label = l → b.node.isA .directive = true :=
      fun b hb hbl => h b hb (hbl ▸ List.mem_cons_self)
    have hfirst := filter_modifyBlocks_mark (fun k => !ls.contains k) hhere
    rw [markAll, List.foldl_cons, ← markAll, ih hmarked, marked, Page.modify, hfirst]
    refine List.filter_congr fun b _ => ?_
    rw [List.contains_cons, Bool.not_or]
    rfl

theorem root_markAll (d : Draft) (ls : List Nat) :
    (markAll d ls).page.name = d.page.name ∧ (markAll d ls).page.attributes = d.page.attributes := by
  induction ls generalizing d with
  | nil => exact ⟨rfl, rfl⟩
  | cons l ls ih => exact ih (marked d l)

/-- A run that ends well leaves the page that its errands make, without what is marked and without
the directives. -/
theorem page_run {rules : DirectiveRules} {name : String} {as : Attributes} {cs : List Node}
    {log : List Notice} {m : Nat} {w : Work}
    (h : run rules ⟨Draft.ofPage (Page.ofElement name as cs), log⟩ = .ok m w) :
    let done := executeAll (Draft.ofPage (Page.ofElement name as cs)) (errands rules.target cs)
    w.draft.page.name = done.1.page.name ∧ w.draft.page.attributes = done.1.page.attributes ∧
      w.draft.page.blocks =
        done.1.page.blocks.filter fun b => !isMarked b.node && !isFor rules.target b.node := by
  intro done
  obtain ⟨w₁, rfl, hsame, -, -⟩ := run_ok h
  have hgrown : Grown (Page.ofElement name as cs).blocks done.1 :=
    grown_errands rules.target name as cs
  have hdirective : ∀ b ∈ done.1.page.blocks,
      b.label ∈ directiveLabels rules.target (Page.ofElement name as cs).blocks →
        b.node.isA .directive = true := fun b hb hbl =>
    isDirective_of_isFor ((hgrown.mem_directiveLabels_iff rules.target hb).1 hbl)
  obtain ⟨hname, hattributes⟩ := root_markAll done.1
    (directiveLabels rules.target (Page.ofElement name as cs).blocks)
  have hpage := hsame.page
  refine ⟨?_, ?_, ?_⟩
  · rw [← hname, ← hpage]
    rfl
  · rw [← hattributes, ← hpage]
    rfl
  · have hblocks : w₁.excised.draft.page.blocks =
        w₁.draft.page.blocks.filter fun b => !isMarked b.node := rfl
    rw [hblocks, hpage, filter_markAll hdirective]
    refine List.filter_congr fun b hb => ?_
    have hiff := hgrown.mem_directiveLabels_iff rules.target hb
    rw [← List.contains_iff_mem, ← Bool.eq_iff_iff] at hiff
    rw [hiff]

section
variable {rules : DirectiveRules} {name : String} {as : Attributes} {cs : List Node}
  {log : List Notice} {m : Nat} {w : Work}

/-- A run that ends well leaves the root as it is. -/
theorem root_run (h : run rules ⟨Draft.ofPage (Page.ofElement name as cs), log⟩ = .ok m w) :
    w.draft.page.name = name ∧ w.draft.page.attributes = as := by
  obtain ⟨hname, hattributes, -⟩ := page_run h
  obtain ⟨hname', hattributes'⟩ := root_executeAll (Draft.ofPage (Page.ofElement name as cs))
    (errands rules.target cs)
  exact ⟨hname.trans hname', hattributes.trans hattributes'⟩

/-- No block that is left by a run is marked or a directive. -/
theorem unmarked_run (h : run rules ⟨Draft.ofPage (Page.ofElement name as cs), log⟩ = .ok m w) :
    ∀ n ∈ w.draft.page.nodes, isMarked n = false ∧ isFor rules.target n = false := by
  intro n hn
  obtain ⟨-, -, hblocks⟩ := page_run h
  obtain ⟨b, hb, rfl⟩ := List.mem_map.1 hn
  rw [hblocks] at hb
  simpa using (List.mem_filter.1 hb).2

/-- What the blocks of a page have, and those that are put in, and what lists keep when they are
merged, all that is left by a run has. -/
theorem forall_run {P : Node → Prop}
    (hnew : ∀ kind withHeading, ∀ n ∈ Draft.scaffold kind withHeading, P n)
    (hmerge : ∀ n m, n.isA .definitionList = true → P n → P m → P (n.mergeList m))
    (hcs : ∀ n ∈ cs, P n)
    (h : run rules ⟨Draft.ofPage (Page.ofElement name as cs), log⟩ = .ok m w) :
    ∀ n ∈ w.draft.page.nodes, P n := by
  intro n hn
  obtain ⟨-, -, hblocks⟩ := page_run h
  obtain ⟨b, hb, rfl⟩ := List.mem_map.1 hn
  rw [hblocks] at hb
  refine forall_executeAll hnew hmerge (grown_ofPage (Page.wellLabelled_ofElement name as cs))
    (standsIn_errands rules.target name as cs) ?_ b (List.mem_filter.1 hb).1
  exact fun b hb => hcs _ (Page.node_mem_of_mem_label hb)

end

end RouteDocs.Directive
