import RouteDocs.Proofs.Directive.Blocks
import RouteDocs.Proofs.Directive.Step
import RouteDocs.Proofs.Draft

/-!
# The catalog during a run

A run never rebuilds the catalog it keeps, yet the catalog is that of the page
at every moment, also after a failure. The invariant behind it: the blocks that
the run started from remain on the page, so a section the scan is in is on it,
and nothing but directives is marked, so what is taken off in the end is
neither a heading nor a list.

Results:
* `sound_merged`, `keeps_carryOut`, `sound_marked`: the invariant, step by step.
* `lookup_run`: the kept catalog after a run answers as one made anew.
-/
namespace RouteDocs.Directive

/-- The blocks of the page at the start are on the page, and only directives are marked. -/
structure Intact (start : List Block) (p : Page) : Prop where
  labelled : p.WellLabelled
  remains : ∀ b ∈ start, b.Remains p
  marked : ∀ b ∈ p.blocks, isMarked b.node = true → b.node.isA .directive = true

/-- The page is intact and the kept catalog is that of the page. -/
structure Sound (start : List Block) (w : Work) : Prop where
  intact : Intact start w.draft.page
  coherent : w.draft.Coherent

/-- A section of the page at the start. -/
def InScope (start : List Block) (routeSection : String) : Prop :=
  ∃ b ∈ start, b.node.isA .head3 = true ∧ b.node.flatten = routeSection

section
variable {start : List Block} {p : Page}

theorem Intact.eq_of_label_eq (h : Intact start p) {b c : Block} (hb : b ∈ p.blocks)
    (hc : c ∈ p.blocks) (hl : b.label = c.label) : b = c :=
  Page.eq_of_label_eq h.labelled (List.mem_append_left _ hb) (List.mem_append_left _ hc) hl

theorem Intact.inScope (h : Intact start p) {routeSection : String}
    (hs : InScope start routeSection) :
    ∃ b ∈ p.blocks, b.node.isA .head3 = true ∧ b.node.flatten = routeSection := by
  obtain ⟨b, hb, h3, rfl⟩ := hs
  obtain ⟨c, hc, -, halike⟩ := h.remains b hb
  exact ⟨c, hc, (halike.isA .head3).trans h3, halike.flatten_of_head3 h3⟩

/-! ## Edits of an intact page -/

theorem Intact.insertAt (h : Intact start p) (position : Nat) {new : List Node}
    (hnew : ∀ n ∈ new, isMarked n = false) : Intact start (p.insertAt position new) := by
  refine ⟨Page.wellLabelled_insertAt h.labelled _ _, fun b hb => (h.remains b hb).insertAt _ _, ?_⟩
  intro b hb hm
  rcases Page.mem_blocks_insertAt.1 hb with hb | hb
  · exact h.marked b hb hm
  · rw [hnew _ (Page.node_mem_of_mem_label hb)] at hm
    cases hm

theorem Intact.modify (h : Intact start p) {l : Nat} {f : Node → Node}
    (hf : ∀ c ∈ p.blocks, c.label = l → (f c.node).Alike c.node)
    (hm : ∀ c ∈ p.blocks, c.label = l → isMarked (f c.node) = true →
      c.node.isA .directive = true) : Intact start (p.modify l f) := by
  refine ⟨Page.wellLabelled_modify h.labelled l f, fun b hb => (h.remains b hb).modify hf, ?_⟩
  intro b hb hmarked
  obtain ⟨c, hc, rfl⟩ := Page.mem_modifyBlocks.1 hb
  by_cases hl : c.label = l
  · simp only [hl, if_pos] at hmarked ⊢
    rw [(hf c hc hl).isA]
    exact hm c hc hl hmarked
  · simp only [hl, if_neg, not_false_eq_true] at hmarked ⊢
    exact h.marked c hc hmarked

theorem Intact.mergeBlocks (h : Intact start p) {source dest : Nat}
    (hdest : ∀ c ∈ p.blocks, c.label = dest → c.node.isA .definitionList = true) :
    Intact start (mergeBlocks p source dest) := by
  rcases mergeBlocks_cases p source dest with heq | ⟨n, -, heq⟩
  · rw [heq]
    exact h
  · rw [heq]
    refine h.modify (fun c hc hl => alike_mergeList n (hdest c hc hl)) fun c hc hl hm => ?_
    rw [isMarked_mergeList] at hm
    exact h.marked c hc hm

theorem Intact.mark (h : Intact start p) {b : Block} (hb : b ∈ start)
    (hdir : b.node.isA .directive = true) : Intact start (p.modify b.label mark) := by
  refine h.modify (fun c _ _ => alike_mark c.node) fun c hc hl _ => ?_
  obtain ⟨c', hc', hl', halike⟩ := h.remains b hb
  obtain rfl := h.eq_of_label_eq hc hc' (hl.trans hl'.symm)
  exact (halike.isA .directive).trans hdir

end

/-! ## Steps of a sound work -/

section
variable {start : List Block} {w : Work}

theorem isMarked_scaffold {kind : String} {withHeading : Bool} {n : Node}
    (h : n ∈ Draft.scaffold kind withHeading) : isMarked n = false := by
  have hlist : isMarked Node.newDefinitionList = false := rfl
  cases withHeading with
  | false =>
    obtain rfl := List.mem_singleton.1 h
    exact hlist
  | true =>
    rcases List.mem_cons.1 h with rfl | h
    · rfl
    · obtain rfl := List.mem_singleton.1 h
      exact hlist

theorem intact_ensureList (h : Sound start w) {into kind : String} (hinto : InScope start into) :
    Intact start (w.draft.ensureList into kind).1.page := by
  cases hl : w.draft.lookup ⟨some into, some kind⟩ with
  | some l =>
    rw [Draft.ensureList_of_some hl]
    exact h.intact
  | none =>
    obtain ⟨before, after, withHeading, -, -, heq⟩ :=
      Draft.ensureList_of_none h.coherent (h.intact.inScope hinto) hl
    rw [heq]
    exact h.intact.insertAt before.length fun n hn => isMarked_scaffold hn

theorem sound_merged (h : Sound start w) {into : String} (hinto : InScope start into)
    (r : Request) (source : Nat) : Sound start (w.merged into r source) := by
  have hsection := h.intact.inScope hinto
  have hintact : Intact start (w.draft.ensureList into r.kind.label).1.page :=
    intact_ensureList h hinto
  have hcoherent : (w.draft.ensureList into r.kind.label).1.Coherent :=
    Draft.coherent_ensureList h.coherent hsection
  -- what is merged into is the list on file
  have hlookup := Draft.lookup_ensureList h.coherent hsection r.kind.label
  have hdest : ∀ c ∈ (w.draft.ensureList into r.kind.label).1.page.blocks,
      c.label = (w.draft.ensureList into r.kind.label).2.1 →
        c.node.isA .definitionList = true :=
    fun c hc hl => hcoherent.isList hintact.labelled hlookup hc hl
  exact ⟨hintact.mergeBlocks hdest, hcoherent.withPage (placed_mergeBlocks source hdest _)⟩

theorem keeps_carryOut (rules : DirectiveRules) {routeSection : Option String} (r : Request)
    (hs : ∀ into, routeSection = some into → InScope start into) :
    Keeps (Sound start) (carryOut rules routeSection r) := by
  intro w h
  rcases finalWork_carryOut rules routeSection r w with ⟨notices, hf | hf⟩ |
    ⟨into, source, hinto, -, hf⟩
  · rw [hf]
    exact ⟨h.intact, h.coherent⟩
  · rw [hf]
    exact ⟨h.intact, h.coherent⟩
  · rw [hf]
    exact sound_merged h (hs into hinto) r source

theorem sound_marked (h : Sound start w) {b : Block} (hb : b ∈ start)
    (hdir : b.node.isA .directive = true) : Sound start (w.marked b.label) :=
  ⟨h.intact.mark hb hdir,
    h.coherent.withPage (Catalog.placed_modifyBlocks (fun c _ _ => (alike_mark c.node).role) _)⟩

/-- What is taken off a page whose marks are on directives is on no file. -/
theorem coherent_excised (h : Sound start w) : w.excised.draft.Coherent := by
  refine h.coherent.withPage (Catalog.placed_filter (fun b hb hm => ?_) _)
  have hmarked : isMarked b.node = true := by simpa using hm
  exact Catalog.noRole_of_isA (h.intact.marked b hb hmarked) (by decide) rfl

end

/-! ## The run -/

theorem keeps_sound_scan (rules : DirectiveRules) (start : List Block) :
    Keeps (Sound start) (scan rules none start) := by
  refine keeps_scan (fun _ r hs => keeps_carryOut rules r hs) ?_ nofun ?_
  · exact fun b hb hfor w hw => sound_marked hw hb (isDirective_of_isFor hfor)
  · exact fun b hb h3 => ⟨b, hb, h3, rfl⟩

theorem sound_start (name : String) (as : Attributes) {cs : List Node}
    (hcs : ∀ n ∈ cs, isMarked n = false) (log : List Notice) :
    Sound (Page.ofElement name as cs).blocks ⟨Draft.ofPage (Page.ofElement name as cs), log⟩ := by
  refine ⟨⟨Page.wellLabelled_ofElement name as cs, fun b hb => .of_mem hb, fun b hb hm => ?_⟩,
    Draft.coherent_ofPage _⟩
  rw [hcs _ (Page.node_mem_of_mem_label hb)] at hm
  cases hm

/-- After a run, ended or failed, the kept catalog has for every place the very block that one
made anew has: the same label, which belongs to no other block. -/
theorem lookup_run (rules : DirectiveRules) (name : String) (as : Attributes) {cs : List Node}
    (hcs : ∀ n ∈ cs, isMarked n = false) (log : List Notice) :
    let d := (finalWork (run rules) ⟨Draft.ofPage (Page.ofElement name as cs), log⟩).draft
    (∀ p, d.lookup p = d.rebuild.lookup p) ∧ d.page.WellLabelled := by
  intro d
  have hscan := keeps_sound_scan rules _ _ (sound_start name as hcs log)
  rcases finalWork_run rules ⟨Draft.ofPage (Page.ofElement name as cs), log⟩ with hrun | hrun
  · simp only [d, hrun]
    exact ⟨hscan.coherent, hscan.intact.labelled⟩
  · have hkeep := Page.wellLabelled_keep hscan.intact.labelled fun n => !isMarked n
    simp only [d, hrun]
    exact ⟨coherent_excised hscan, hkeep⟩

/-- A run that puts in an input subsection and merges into it. -/
theorem lookup_run_of_one_directive :
    let cs : List Node :=
      [.element "head3" [] [.text "GET /a"], .element "head4" [] [.text "Input"],
        .element "over-text" [] [.element "item-text" [] [.text "q"]],
        .element "head3" [] [.text "GET /b"],
        .element "for" [("target", .text "docviewer")]
          [.element "Data" [] [.text "input-from GET /a"]]]
    (∀ n ∈ cs, isMarked n = false) ∧
    let d := (finalWork (run ⟨"docviewer", true⟩)
      ⟨Draft.ofPage (Page.ofElement "Document" [] cs), []⟩).draft
    (∀ p, d.lookup p = d.rebuild.lookup p) ∧ d.page.WellLabelled :=
  ⟨by decide, lookup_run ⟨"docviewer", true⟩ "Document" [] (by decide) []⟩

end RouteDocs.Directive
