import RouteDocs.Proofs.Directive.Grown

/-!
# What a run takes off a page

A run puts in headings and lists, rewrites lists and marks directives, and in
the end it takes off what is marked. So the blocks of the page at the start stay
in their order, each with its label, its name and its attributes, less the
directives and less what was marked before: the mark is an attribute like any
other, and a node that is no directive is taken off too if it comes with it.

Results:
* `outline_executeAll`: errands leave the outline of the blocks there were.
* `blocks_run`: the blocks that a run leaves, read off its errands.
* `mem_blocks_run`: what is neither a list nor marked nor a directive stays as it is.
* `run_keeps_unmarked`: a run takes off directives and what was marked, and no other node.
* `run_takes_marked_paragraph`: a paragraph with the mark is taken off.
-/
namespace RouteDocs.Directive

/-- What is seen of a block without a look inside: its label, its name and its attributes. -/
def entry (b : Block) : Nat × Node :=
  (b.label, b.node.withChildren [])

def outline (bs : List Block) : List (Nat × Node) :=
  bs.map entry

/-- The blocks with a label below a number: those there were when it was the next to be given. -/
def known (next : Nat) (bs : List Block) : List Block :=
  bs.filter fun b => b.label < next

section
variable {next l : Nat} {p : Page} {b c : Block} {bs : List Block} {f : Node → Node}

theorem isMarked_withChildren (n : Node) (cs : List Node) :
    isMarked (n.withChildren cs) = isMarked n := by
  cases n <;> rfl

theorem isMarked_of_entry (h : entry b = entry c) : isMarked b.node = isMarked c.node := by
  rw [← isMarked_withChildren b.node [], ← isMarked_withChildren c.node []]
  exact congrArg (fun e => isMarked e.2) h

theorem isA_of_entry (h : entry b = entry c) (k : Kind) : b.node.isA k = c.node.isA k := by
  rw [← DefinitionList.isA_withChildren b.node [], ← DefinitionList.isA_withChildren c.node []]
  exact congrArg (fun e => e.2.isA k) h

theorem outline_filter (test : Nat × Node → Bool) (bs : List Block) :
    outline (bs.filter fun b => test (entry b)) = (outline bs).filter test := by
  rw [outline, outline, List.filter_map]
  rfl

theorem outline_known (next : Nat) (bs : List Block) :
    outline (known next bs) = (outline bs).filter fun e => e.1 < next :=
  outline_filter (fun e => decide (e.1 < next)) bs

/-! ## Edits -/

theorem known_insertAt (h : next ≤ p.nextLabel) (position : Nat) (new : List Node) :
    known next (p.insertAt position new).blocks = known next p.blocks := by
  have hnew : (Page.label p.nextLabel new).filter (fun b => b.label < next) = [] := by
    refine List.filter_eq_nil_iff.2 fun b hb => ?_
    have := (Page.label_mem_range hb).1
    simp only [decide_eq_true_eq]
    omega
  rw [known, known, Page.insertAt, List.filter_append, List.filter_append, hnew, List.append_nil,
    ← List.filter_append, List.take_append_drop]

theorem outline_modifyBlocks (hf : ∀ n, (f n).withChildren [] = n.withChildren []) (l : Nat)
    (bs : List Block) : outline (Page.modifyBlocks l f bs) = outline bs := by
  rw [outline, Page.modifyBlocks, List.map_map, outline]
  refine List.map_congr_left fun b _ => ?_
  simp only [Function.comp]
  split
  · simp only [entry, hf]
  · rfl

end

/-! ## Errands -/

section
variable {next : Nat} {d d' : Draft} {e : Errand}

theorem outline_execute (hnext : next ≤ d.page.nextLabel) (h : execute d e = some d') :
    outline (known next d'.page.blocks) = outline (known next d.page.blocks) := by
  obtain ⟨into, source, -, -, rfl⟩ := execute_eq_some_iff.1 h
  have hensured : known next (d.ensureList into e.request.kind.label).1.page.blocks =
      known next d.page.blocks := by
    rcases Draft.page_ensureList d into e.request.kind.label with heq | ⟨position, withHeading, heq⟩
    · rw [heq]
    · rw [heq, known_insertAt hnext]
  have hmerged : ∀ (p : Page) (dest : Nat),
      outline (mergeBlocks p source dest).blocks = outline p.blocks := by
    intro p dest
    rcases mergeBlocks_cases p source dest with heq | ⟨n, -, heq⟩
    · rw [heq]
    · have hmerge : ∀ m : Node, (n.mergeList m).withChildren [] = m.withChildren [] := by
        intro m
        cases m <;> rfl
      rw [heq]
      exact outline_modifyBlocks hmerge dest p.blocks
  rw [outline_known, hmerged, ← outline_known, hensured]

/-- Errands leave the outline of the blocks there were. -/
theorem outline_executeAll (hnext : next ≤ d.page.nextLabel) (es : List Errand) :
    outline (known next (executeAll d es).1.page.blocks) = outline (known next d.page.blocks) := by
  induction es generalizing d with
  | nil => rfl
  | cons e rest ih =>
    rw [executeAll]
    cases h : execute d e with
    | none => exact ih hnext
    | some d' =>
      have hgrown := Nat.le_trans hnext (nextLabel_execute h)
      exact (ih hgrown).trans (outline_execute hnext h)

end

/-! ## The run -/

section
variable {rules : DirectiveRules} {w w' : Work} {m : Nat}

theorem known_blocks {p : Page} (h : p.WellLabelled) : known p.nextLabel p.blocks = p.blocks :=
  List.filter_eq_self.2 fun b hb => decide_eq_true (h.below b (List.mem_append_left _ hb))

theorem mem_directiveLabels_iff {p : Page} (h : p.WellLabelled) (target : String) {b : Block}
    (hb : b ∈ p.blocks) : b.label ∈ directiveLabels target p.blocks ↔ isFor target b.node = true := by
  rw [directiveLabels, List.mem_map]
  constructor
  · rintro ⟨c, hc, hlabel⟩
    obtain ⟨hc, hfor⟩ := List.mem_filter.1 hc
    obtain rfl := Page.eq_of_label_eq h (List.mem_append_left _ hc) (List.mem_append_left _ hb) hlabel
    exact hfor
  · exact fun hfor => ⟨b, List.mem_filter.2 ⟨hb, hfor⟩, rfl⟩

/-- A run that ends well leaves the blocks that its errands make, without what is marked and
without the directives there were. -/
theorem blocks_run (hlabels : w.draft.page.WellLabelled) (h : run rules w = .ok m w') :
    w'.draft.page.blocks =
      (executeAll w.draft (errands rules.target w.draft.page.nodes)).1.page.blocks.filter fun b =>
        !isMarked b.node && !(directiveLabels rules.target w.draft.page.blocks).contains b.label := by
  rw [run_apply] at h
  split at h
  · rename_i k w₁ hscan
    cases h
    obtain ⟨hsame, -, -⟩ := scan_ok
      (fun b hb => hlabels.below b (List.mem_append_left _ hb)) hscan
    have hblocks : w₁.excised.draft.page.blocks =
        w₁.draft.page.blocks.filter fun b => !isMarked b.node := rfl
    rw [hblocks, hsame.page, ← errands_eq]
    refine filter_markAll fun b hb hlabel => ?_
    -- a block with the label of a directive looks as the directive did
    obtain ⟨c, hc, hcl⟩ := List.mem_map.1 hlabel
    obtain ⟨hc, hfor⟩ := List.mem_filter.1 hc
    have hbelow : b.label < w.draft.page.nextLabel := by
      rw [← hcl]
      exact hlabels.below c (List.mem_append_left _ hc)
    have hentry : entry b ∈ outline w.draft.page.blocks := by
      rw [← known_blocks hlabels, ← outline_executeAll (Nat.le_refl _)]
      exact List.mem_map_of_mem (List.mem_filter.2 ⟨hb, decide_eq_true hbelow⟩)
    obtain ⟨c', hc', hsee⟩ := List.mem_map.1 hentry
    have hcc : c.label = c'.label := hcl.trans (congrArg Prod.fst hsee).symm
    obtain rfl := Page.eq_of_label_eq hlabels (List.mem_append_left _ hc)
      (List.mem_append_left _ hc') hcc
    rw [← isA_of_entry hsee]
    exact isDirective_of_isFor hfor
  · cases h

/-- What a run that ends well leaves of the blocks there were: all but the directives and what was
marked before. -/
theorem outline_run (hlabels : w.draft.page.WellLabelled) (h : run rules w = .ok m w') :
    outline (known w.draft.page.nextLabel w'.draft.page.blocks) =
      outline (w.draft.page.blocks.filter fun b =>
        !isFor rules.target b.node && !isMarked b.node) := by
  have htest : ∀ bs : List Block,
      outline (bs.filter fun b => !isMarked b.node &&
          !(directiveLabels rules.target w.draft.page.blocks).contains b.label) =
        (outline bs).filter fun e => !isMarked e.2 &&
          !(directiveLabels rules.target w.draft.page.blocks).contains e.1 := by
    intro bs
    rw [← outline_filter]
    simp only [entry, isMarked_withChildren]
  have hstart := outline_executeAll (Nat.le_refl w.draft.page.nextLabel)
    (errands rules.target w.draft.page.nodes)
  rw [known_blocks hlabels] at hstart
  rw [blocks_run hlabels h, known, List.filter_comm, ← known, htest, hstart, ← htest]
  congr 1
  refine List.filter_congr fun b hb => ?_
  have hiff := mem_directiveLabels_iff hlabels rules.target hb
  rw [← List.contains_iff_mem, ← Bool.eq_iff_iff] at hiff
  rw [hiff, Bool.and_comm]

/-- A node that is no list, no directive of the run and not marked stays as it is. -/
theorem mem_blocks_run (hlabels : w.draft.page.WellLabelled) (hcoherent : w.draft.Coherent)
    (h : run rules w = .ok m w') {b : Block} (hb : b ∈ w.draft.page.blocks)
    (hlist : b.node.isA .definitionList = false) (hfor : isFor rules.target b.node = false)
    (hmarked : isMarked b.node = false) : b ∈ w'.draft.page.blocks := by
  have hgrown : Grown w.draft.page.blocks w.draft :=
    ⟨hlabels, hcoherent, fun _ hb _ => hb, fun _ hb => .inl hb⟩
  have hstands : ∀ e ∈ errands rules.target w.draft.page.nodes, e.StandsIn w.draft.page.blocks :=
    fun e he into hinto => inScope_of_mem_errands he hinto
  have hother : b.label ∉ directiveLabels rules.target w.draft.page.blocks := by
    rw [mem_directiveLabels_iff hlabels rules.target hb, hfor]
    exact Bool.false_ne_true
  rw [blocks_run hlabels h]
  refine List.mem_filter.2 ⟨(grown_executeAll hgrown hstands).kept b hb hlist, ?_⟩
  simp [hmarked, hother]

theorem isMarked_of_entry_mem (hlabels : w.draft.page.WellLabelled) (h : run rules w = .ok m w')
    {b : Block} (hb : b ∈ w.draft.page.blocks) (hstays : entry b ∈ outline w'.draft.page.blocks) :
    isMarked b.node = false := by
  obtain ⟨c, hc, hsee⟩ := List.mem_map.1 hstays
  have hlabel : c.label = b.label := congrArg Prod.fst hsee
  have hbelow : c.label < w.draft.page.nextLabel :=
    hlabel ▸ hlabels.below b (List.mem_append_left _ hb)
  have hleft : entry c ∈ outline (known w.draft.page.nextLabel w'.draft.page.blocks) :=
    List.mem_map_of_mem (List.mem_filter.2 ⟨hc, decide_eq_true hbelow⟩)
  rw [outline_run hlabels h] at hleft
  obtain ⟨c', hc', hsee'⟩ := List.mem_map.1 hleft
  have htest := (List.mem_filter.1 hc').2
  rw [Bool.and_eq_true, Bool.not_eq_true', Bool.not_eq_true'] at htest
  rw [← isMarked_of_entry (hsee'.trans hsee)]
  exact htest.2

/-- A run that ends well takes off the page its directives and the nodes that were marked before
it; the others stay, in their order, with their names and attributes, and all but lists with
what is in them. So it takes off nothing but directives exactly if no other node was marked. -/
theorem run_keeps_unmarked (hlabels : w.draft.page.WellLabelled) (h : run rules w = .ok m w') :
    outline (known w.draft.page.nextLabel w'.draft.page.blocks) =
        outline (w.draft.page.blocks.filter fun b =>
          !isFor rules.target b.node && !isMarked b.node) ∧
      (w.draft.Coherent → ∀ b ∈ w.draft.page.blocks, b.node.isA .definitionList = false →
        isFor rules.target b.node = false → isMarked b.node = false → b ∈ w'.draft.page.blocks) ∧
      ((outline (w.draft.page.blocks.filter fun b => !isFor rules.target b.node)).Sublist
          (outline w'.draft.page.blocks) ↔
        ∀ b ∈ w.draft.page.blocks, isFor rules.target b.node = false → isMarked b.node = false) := by
  have houtline := outline_run hlabels h
  refine ⟨houtline, fun hcoherent b hb hlist hfor hmarked =>
    mem_blocks_run hlabels hcoherent h hb hlist hfor hmarked, ?_, ?_⟩
  · intro hsub b hb hfor
    refine isMarked_of_entry_mem hlabels h hb (hsub.subset ?_)
    exact List.mem_map_of_mem (List.mem_filter.2 ⟨hb, by simp [hfor]⟩)
  · intro hall
    have hsame : (w.draft.page.blocks.filter fun b =>
          !isFor rules.target b.node && !isMarked b.node) =
        w.draft.page.blocks.filter fun b => !isFor rules.target b.node := by
      refine List.filter_congr fun b hb => ?_
      cases hfor : isFor rules.target b.node with
      | true => rfl
      | false => rw [hall b hb hfor]; rfl
    rw [← hsame, ← houtline]
    exact List.filter_sublist.map entry

end

/-- A run that merges a list, with a directive for another target and a marked note on the page. -/
theorem run_keeps_unmarked_of_two_targets :
    let w : Work := ⟨Draft.ofPage (Page.ofElement "Document" [] [
      .element "head3" [] [.text "GET /a"], .element "head4" [] [.text "Input"],
      .element "over-text" [] [.element "item-text" [] [.text "q"]],
      .element "Para" [("delete", .int 1)] [.text "old"], .text "loose",
      .element "head3" [] [.text "GET /b"],
      .element "for" [("target", .text "html")] [.element "Data" [] [.text "input-from GET /c"]],
      .element "for" [("target", .text "docviewer")]
        [.element "Data" [] [.text "input-from GET /a"]]]), []⟩
    let rules : DirectiveRules := ⟨"docviewer", true⟩
    w.draft.page.WellLabelled ∧ w.draft.Coherent ∧ ∃ m w', run rules w = .ok m w' ∧
      outline (known w.draft.page.nextLabel w'.draft.page.blocks) =
          outline (w.draft.page.blocks.filter fun b =>
            !isFor rules.target b.node && !isMarked b.node) ∧
        (∀ b ∈ w.draft.page.blocks, b.node.isA .definitionList = false →
          isFor rules.target b.node = false → isMarked b.node = false →
            b ∈ w'.draft.page.blocks) ∧
        ((outline (w.draft.page.blocks.filter fun b => !isFor rules.target b.node)).Sublist
            (outline w'.draft.page.blocks) ↔
          ∀ b ∈ w.draft.page.blocks, isFor rules.target b.node = false →
            isMarked b.node = false) := by
  intro w rules
  have hlabels : w.draft.page.WellLabelled := Page.wellLabelled_ofElement _ _ _
  have hcoherent : w.draft.Coherent := Draft.coherent_ofPage _
  have hends : succeeds (run rules) w = true := by decide +kernel
  refine ⟨hlabels, hcoherent, ?_⟩
  rw [succeeds] at hends
  split at hends
  · rename_i m w' hrun
    obtain ⟨houtline, hkept, hexactly⟩ := run_keeps_unmarked hlabels hrun
    exact ⟨m, w', hrun, houtline, hkept hcoherent, hexactly⟩
  · cases hends

/-- A paragraph that comes with the mark is taken off a page without directives. -/
theorem run_takes_marked_paragraph :
    let p := Page.ofElement "Document" [] [.element "Para" [("delete", .bool true)] [.text "kept"]]
    (∀ b ∈ p.blocks, b.node.isA .directive = false) ∧
      ∃ w', run ⟨"docviewer", true⟩ ⟨Draft.ofPage p, []⟩ = .ok 0 w' ∧
        w'.draft.page.blocks = [] := by
  intro p
  exact ⟨by decide, _, rfl, rfl⟩

end RouteDocs.Directive
