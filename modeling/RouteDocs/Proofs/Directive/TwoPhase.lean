import RouteDocs.Proofs.Directive.Grown

/-!
# The single pass and the two phases

The scan reads directives, puts lists in and merges all in one pass. It comes to
the same to read all errands off the page as it is given, then to execute them
in turn, and then to take the directives off: no errand disturbs what the scan
has yet to read, and no mark makes a difference to an errand.

Results:
* `node?_scan`: what the scan is about to read is as it was at the start.
* `run_eq_two_phases`: a lenient run makes the tree and the count of the two phases.
-/
namespace RouteDocs.Directive

/-- What the scan is about to read is as it was at the start, unless it is a list. -/
theorem node?_scan {p : Page} (hp : p.WellLabelled) {rules : DirectiveRules}
    (hlenient : rules.strict = false) (log : List Notice) {before after : List Block} {b : Block}
    (hblocks : p.blocks = before ++ b :: after) (hb : b.node.isA .definitionList = false) :
    ∃ m w, scan rules none before ⟨Draft.ofPage p, log⟩ = .ok m w ∧
      w.draft.page.node? b.label = some b.node := by
  obtain ⟨m, w, hscan⟩ := scan_lenient hlenient none before ⟨Draft.ofPage p, log⟩
  refine ⟨m, w, hscan, ?_⟩
  have hbefore : ∀ c ∈ before, c ∈ p.blocks := fun c hc => by
    rw [hblocks]
    exact List.mem_append_left _ hc
  have hlabels : ∀ c ∈ before, c.label < p.nextLabel := fun c hc =>
    hp.below c (List.mem_append_left _ (hbefore c hc))
  obtain ⟨hsame, -, -⟩ := scan_ok hlabels hscan
  have hgrown : Grown p.blocks (executeAll (Draft.ofPage p)
      (errandsFrom rules.target none (before.map (·.node)))).1 := by
    refine grown_executeAll (grown_ofPage hp) fun e he into hinto => ?_
    obtain ⟨c, hc, hs⟩ := (inScope_of_mem_errandsFrom he hinto).resolve_left nofun
    exact ⟨c, hbefore c hc, hs⟩
  have hmem : b ∈ p.blocks := hblocks ▸ List.mem_append_right _ List.mem_cons_self
  have hunmarked : b.label ∉ directiveLabels rules.target before := fun hl => by
    obtain ⟨c, hc, hlabel⟩ := List.mem_map.1 hl
    exact (Page.label_ne_at hp hblocks).1 c (List.mem_filter.1 hc).1 hlabel
  rw [hsame.page, node?_markAll _ hunmarked, Page.node?_eq_some_iff hgrown.labelled]
  exact List.mem_append_left _ (hgrown.kept b hmem hb)

/-- A lenient run makes the tree and the count of the two phases: the errands are read off the page
as it is given, then they are executed in turn, those that cannot be executed being skipped, and
then the directives are taken off. What the scan reads on its way is as it was at the start. -/
theorem run_eq_two_phases (target name : String) (as : Attributes) {cs : List Node}
    (hcs : ∀ n ∈ cs, isMarked n = false) (log : List Notice) :
    let p := Page.ofElement name as cs
    let done := executeAll (Draft.ofPage p) (errands target cs)
    (∃ w, run ⟨target, false⟩ ⟨Draft.ofPage p, log⟩ = .ok done.2 w ∧
      w.draft.page.toNode = (done.1.page.keep fun n => !isFor target n).toNode) ∧
    ∀ before b after, p.blocks = before ++ b :: after → b.node.isA .definitionList = false →
      ∃ m w, scan ⟨target, false⟩ none before ⟨Draft.ofPage p, log⟩ = .ok m w ∧
        w.draft.page.node? b.label = some b.node := by
  intro p done
  have hp : p.WellLabelled := Page.wellLabelled_ofElement name as cs
  constructor
  · have hlenient : (⟨target, false⟩ : DirectiveRules).strict = false := rfl
    obtain ⟨m, w, hrun⟩ := run_lenient hlenient ⟨Draft.ofPage p, log⟩
    obtain ⟨-, -, -, hcount, -⟩ := run_ok hrun
    obtain ⟨hname, hattributes, hblocks⟩ := page_run hrun
    have hunmarked : ∀ b ∈ done.1.page.blocks, isMarked b.node = false :=
      isMarked_errands target name as hcs
    refine ⟨w, hcount ▸ hrun, ?_⟩
    rw [Page.toNode, Page.toNode, Page.nodes, Page.nodes, hname, hattributes, hblocks, Page.keep]
    congr 2
    refine List.filter_congr fun b hb => ?_
    rw [hunmarked b hb]
    rfl
  · exact fun before b after hblocks hb => node?_scan hp rfl log hblocks hb

/-- Two directives, the second of which takes in what the first has put in; one request has no
source and is skipped. -/
theorem run_eq_two_phases_of_chain :
    let directive := fun s => Node.element "for" [("target", .text "docviewer")]
      [.element "Data" [] [.text s]]
    let cs : List Node :=
      [.element "head3" [] [.text "GET /a"], .element "head4" [] [.text "Input"],
        .element "over-text" [] [.element "item-text" [] [.text "q"]],
        .element "head3" [] [.text "GET /b"],
        directive "input-from GET /a\noutput-from GET /a",
        .element "head3" [] [.text "GET /c"], directive "input-from GET /b"]
    (∀ n ∈ cs, isMarked n = false) ∧ (errands "docviewer" cs).length = 3 ∧
    (executeAll (Draft.ofPage (Page.ofElement "Document" [] cs)) (errands "docviewer" cs)).2 = 2 ∧
    let p := Page.ofElement "Document" [] cs
    let done := executeAll (Draft.ofPage p) (errands "docviewer" cs)
    ∃ w, run ⟨"docviewer", false⟩ ⟨Draft.ofPage p, []⟩ = .ok done.2 w ∧
      w.draft.page.toNode = (done.1.page.keep fun n => !isFor "docviewer" n).toNode := by
  intro directive cs
  have hcs : ∀ n ∈ cs, isMarked n = false := by decide
  refine ⟨hcs, by decide +kernel, by decide +kernel, ?_⟩
  exact (run_eq_two_phases "docviewer" "Document" [] hcs []).1

end RouteDocs.Directive
