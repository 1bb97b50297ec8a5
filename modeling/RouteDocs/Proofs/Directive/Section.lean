import RouteDocs.Proofs.Catalog
import RouteDocs.Proofs.Directive.Step

/-!
# The section a directive stands in

The scan goes by the last heading of level three. The catalog also has a
heading of level one or two close a section, which the scan passes over. The
two agree on the section of a directive except after such a heading: there the
scan is still in the section that is closed.

Results:
* `scan_append`: the scan of blocks is that of the first ones, then that of the others in
  the section that the first ones end in.
* `currentSection_eq_iff`: scan and catalog are in one section unless it is closed.
* `mem_placed_at`: `filedSection` is the section the catalog gives to a list.
* `run_cut`: a run in parts, cut at a directive.
* `run_at_directive`: in which section the requests of a directive are carried out.
-/
namespace RouteDocs.Directive

variable {rules : DirectiveRules}

/-- The section that the scan is in after blocks. -/
def currentSection (routeSection : Option String) (bs : List Block) : Option String :=
  bs.foldl (fun s b => if b.node.isA .head3 then some b.node.flatten else s) routeSection

/-- The last section among blocks is closed: after its heading comes one of level one or two. -/
def Closed (bs : List Block) : Prop :=
  ∃ before h after, bs = before ++ h :: after ∧
    (h.node.isA .head1 = true ∨ h.node.isA .head2 = true) ∧
    (∃ c ∈ before, c.node.isA .head3 = true) ∧ ∀ c ∈ after, c.node.isA .head3 = false

/-! ## The scan and its section -/

theorem scan_append (routeSection : Option String) (bs cs : List Block) :
    scan rules routeSection (bs ++ cs) = (do
      let m ← scan rules routeSection bs
      let n ← scan rules (currentSection routeSection bs) cs
      return m + n) := by
  induction bs generalizing routeSection with
  | nil => simp only [List.nil_append, scan, currentSection, List.foldl_nil, pure_bind,
      Nat.zero_add, bind_pure]
  | cons b rest ih =>
    rw [List.cons_append]
    cases hfor : isFor rules.target b.node with
    | true =>
      have h3 : b.node.isA .head3 = false :=
        Node.isA_eq_false (isDirective_of_isFor hfor) (by decide)
      simp only [scan_directive hfor, ih, currentSection, List.foldl_cons, h3, Bool.false_eq_true,
        if_false, bind_assoc, pure_bind, Nat.add_assoc]
    | false =>
      simp only [scan_other hfor, ih, currentSection, List.foldl_cons]

theorem currentSection_append (routeSection : Option String) (bs cs : List Block) :
    currentSection routeSection (bs ++ cs) = currentSection (currentSection routeSection bs) cs :=
  List.foldl_append

theorem currentSection_of_no_head3 {bs : List Block} (h : ∀ b ∈ bs, b.node.isA .head3 = false)
    (routeSection : Option String) : currentSection routeSection bs = routeSection := by
  induction bs with
  | nil => rfl
  | cons b rest ih =>
    have hb := h b List.mem_cons_self
    have hrest := ih fun c hc => h c (List.mem_cons_of_mem _ hc)
    rwa [currentSection, List.foldl_cons, if_neg (by simp [hb])]

/-- Once in a section, the scan stays in one. -/
theorem isSome_currentSection {bs : List Block} {routeSection : Option String}
    (h : routeSection.isSome = true ∨ ∃ b ∈ bs, b.node.isA .head3 = true) :
    (currentSection routeSection bs).isSome = true := by
  induction bs generalizing routeSection with
  | nil =>
    rcases h with h | ⟨b, hb, -⟩
    · exact h
    · cases hb
  | cons b rest ih =>
    rw [currentSection, List.foldl_cons]
    refine ih ?_
    split
    · exact .inl rfl
    · rename_i hb
      rcases h with h | ⟨c, hc, h3⟩
      · exact .inl h
      · rcases List.mem_cons.1 hc with rfl | hc
        · exact absurd h3 hb
        · exact .inr ⟨c, hc, h3⟩

/-! ## The section of the catalog -/

/-- The section that a list after blocks would be filed under. -/
def filedSection (bs : List Block) : Option String :=
  (Place.start.afterAll (bs.map (·.node))).routeSection

theorem mem_placed_at (before after : List Block) {b : Block}
    (h : b.node.isA .definitionList = true) :
    ∃ p : Place, p.routeSection = filedSection before ∧
      (p, b.label) ∈ Catalog.placed Place.start (before ++ b :: after) := by
  refine ⟨Place.start.afterAll (before.map (·.node)), rfl, ?_⟩
  rw [Catalog.placed_append, Catalog.placed, h, if_pos rfl]
  exact List.mem_append_right _ (List.mem_append_left _ List.mem_cons_self)

theorem filedSection_append (bs : List Block) {cs : List Block}
    (h : ∀ c ∈ cs, c.node.endsSection = false) : filedSection (bs ++ cs) = filedSection bs := by
  rw [filedSection, List.map_append, Place.afterAll_append, filedSection]
  generalize Place.start.afterAll (bs.map (·.node)) = p
  induction cs generalizing p with
  | nil => rfl
  | cons c rest ih =>
    have hrest := ih (fun d hd => h d (List.mem_cons_of_mem _ hd)) (p.after c.node)
    exact hrest.trans (Place.routeSection_after (h c List.mem_cons_self) p)

theorem filedSection_head3 (bs : List Block) {b : Block} (h : b.node.isA .head3 = true) :
    filedSection (bs ++ [b]) = some b.node.flatten := by
  rw [filedSection, List.map_append, Place.afterAll_append]
  exact congrArg Place.routeSection (Place.after_head3 h _)

theorem filedSection_closing (bs : List Block) {b : Block}
    (h : b.node.isA .head1 = true ∨ b.node.isA .head2 = true) : filedSection (bs ++ [b]) = none := by
  rw [filedSection, List.map_append, Place.afterAll_append]
  exact congrArg Place.routeSection (Place.after_closing h _)

/-- Outside a section the catalog stays until a heading of level three. -/
theorem filedSection_eq_none {bs cs : List Block} (hbs : filedSection bs = none)
    (h : ∀ c ∈ cs, c.node.isA .head3 = false) : filedSection (bs ++ cs) = none := by
  induction cs generalizing bs with
  | nil => rwa [List.append_nil]
  | cons c rest ih =>
    have h3 := h c List.mem_cons_self
    have hc : filedSection (bs ++ [c]) = none := by
      by_cases hend : c.node.endsSection = true
      · exact filedSection_closing bs (Node.closing_of_endsSection hend h3)
      · rw [filedSection_append bs (by simpa using hend), hbs]
    have hrest := ih hc fun d hd => h d (List.mem_cons_of_mem _ hd)
    rwa [List.append_assoc] at hrest

/-! ## Where the two agree -/

theorem exists_last_end (bs : List Block) :
    (∀ b ∈ bs, b.node.endsSection = false) ∨
      ∃ before h after, bs = before ++ [h] ++ after ∧ h.node.endsSection = true ∧
        ∀ c ∈ after, c.node.endsSection = false := by
  induction bs with
  | nil => exact .inl (by simp)
  | cons b rest ih =>
    rcases ih with ih | ⟨before, h, after, rfl, hend, hafter⟩
    · by_cases hb : b.node.endsSection = true
      · exact .inr ⟨[], b, rest, rfl, hb, ih⟩
      · refine .inl fun c hc => ?_
        rcases List.mem_cons.1 hc with rfl | hc
        · simpa using hb
        · exact ih c hc
    · exact .inr ⟨b :: before, h, after, rfl, hend, hafter⟩

theorem sections_of_closed {bs : List Block} (h : Closed bs) :
    (currentSection none bs).isSome = true ∧ filedSection bs = none := by
  obtain ⟨before, b, after, rfl, hclosing, ⟨c, hc, h3⟩, hafter⟩ := h
  constructor
  · exact isSome_currentSection (.inr ⟨c, List.mem_append_left _ hc, h3⟩)
  · have := filedSection_eq_none (filedSection_closing before hclosing) hafter
    rwa [List.append_assoc] at this

theorem currentSection_of_not_closed {bs : List Block} (h : ¬ Closed bs) :
    currentSection none bs = filedSection bs := by
  rcases exists_last_end bs with hnone | ⟨before, b, after, rfl, hend, hafter⟩
  · have hfiled := filedSection_append [] hnone
    rw [List.nil_append] at hfiled
    rw [hfiled, currentSection_of_no_head3 fun c hc => Node.isA_head3_of_not_end (hnone c hc)]
    rfl
  · have hafter3 : ∀ c ∈ after, c.node.isA .head3 = false :=
      fun c hc => Node.isA_head3_of_not_end (hafter c hc)
    rw [currentSection_append, currentSection_of_no_head3 hafter3, filedSection_append _ hafter]
    by_cases h3 : b.node.isA .head3 = true
    · rw [filedSection_head3 before h3, currentSection_append]
      simp [currentSection, h3]
    · have hclosing := Node.closing_of_endsSection hend (Bool.eq_false_iff.2 h3)
      rw [filedSection_closing before hclosing]
      -- a heading of level three before would be closed here
      refine currentSection_of_no_head3 (fun c hc => ?_) none
      rcases List.mem_append.1 hc with hc | hc
      · refine Bool.eq_false_iff.2 fun hc3 => h ?_
        exact ⟨before, b, after, by simp, hclosing, ⟨c, hc, hc3⟩, hafter3⟩
      · rw [List.mem_singleton.1 hc]
        exact Bool.eq_false_iff.2 h3

theorem currentSection_eq_iff (bs : List Block) :
    currentSection none bs = filedSection bs ↔ ¬ Closed bs := by
  refine ⟨fun he hc => ?_, currentSection_of_not_closed⟩
  obtain ⟨hsome, hnone⟩ := sections_of_closed hc
  rw [he, hnone] at hsome
  cases hsome

/-! ## The requests of a directive -/

theorem carryOutAll_none_strict (hstrict : rules.strict = true) (r : Request)
    (rest : List Request) (w : Work) :
    carryOutAll rules none (r :: rest) w = .error (.outsideSection r.kind r.reference) w := by
  simp only [carryOutAll, carryOut_none, bind, EStateM.bind, refuse_apply, hstrict, if_pos]

theorem carryOutAll_none_lenient (hstrict : rules.strict = false) (rs : List Request) (w : Work) :
    carryOutAll rules none rs w =
      .ok 0 (w.note (rs.map fun r => .skipped (.outsideSection r.kind r.reference))) := by
  induction rs generalizing w with
  | nil => simp [carryOutAll, Work.note, pure, EStateM.pure]
  | cons r rest ih =>
    simp only [carryOutAll, carryOut_none, bind, EStateM.bind, refuse_apply, hstrict,
      Bool.false_eq_true, if_false, ih, pure, EStateM.pure]
    simp [Work.note]

/-- A run in parts: what is in front of a directive, the directive in the section that the scan is
then in, and what follows it. -/
theorem run_cut {w : Work} {before after : List Block} {b : Block}
    (hpage : w.draft.page.blocks = before ++ b :: after)
    (hfor : isFor rules.target b.node = true) :
    run rules w = (do
      let m ← scan rules none before
      let k ← carryOutAll rules (currentSection none before) (Request.ofDirective b.node)
      modify fun w => w.marked b.label
      let n ← scan rules (currentSection none before) after
      modify Work.excised
      return m + (k + n) : Step Nat) w := by
  rw [run_eq, hpage, scan_append, scan_directive hfor]
  simp only [bind_assoc, pure_bind]

/-- A directive of a run is carried out in the section that the scan is in. Unless a section is
closed there, that is the section of its place on the page, and if it is none, the requests are
refused. Where a section is closed, the scan is in one and the place on the page in none. -/
theorem run_at_directive {w : Work} {before after : List Block} {b : Block}
    (hpage : w.draft.page.blocks = before ++ b :: after)
    (hfor : isFor rules.target b.node = true) :
    run rules w = (do
      let m ← scan rules none before
      let k ← carryOutAll rules (currentSection none before) (Request.ofDirective b.node)
      modify fun w => w.marked b.label
      let n ← scan rules (currentSection none before) after
      modify Work.excised
      return m + (k + n) : Step Nat) w ∧
    (currentSection none before = filedSection before ↔ ¬ Closed before) ∧
    (¬ Closed before → filedSection before = none → ∀ r rest w,
      carryOutAll rules (currentSection none before) (r :: rest) w =
        if rules.strict then .error (.outsideSection r.kind r.reference) w
        else .ok 0
          (w.note ((r :: rest).map fun r => .skipped (.outsideSection r.kind r.reference)))) ∧
    (Closed before → (currentSection none before).isSome = true ∧ filedSection before = none) := by
  refine ⟨run_cut hpage hfor, currentSection_eq_iff before, fun hclosed hfiled r rest w => ?_,
    sections_of_closed⟩
  rw [currentSection_of_not_closed hclosed, hfiled]
  cases hstrict : rules.strict with
  | true => exact carryOutAll_none_strict hstrict r rest w
  | false => exact carryOutAll_none_lenient hstrict (r :: rest) w

theorem run_at_directive_of_one_section :
    let heading := Node.element "head3" [] [.text "GET /b"]
    let directive := Node.element "for" [("target", .text "docviewer")]
      [.element "Data" [] [.text "input-from GET /a"]]
    let w : Work := ⟨Draft.ofPage (Page.ofElement "Document" [] [heading, directive]), []⟩
    let rules : DirectiveRules := ⟨"docviewer", true⟩
    let before : List Block := [⟨0, heading⟩]
    w.draft.page.blocks = before ++ ⟨1, directive⟩ :: [] ∧ isFor rules.target directive = true ∧
    (currentSection none before = filedSection before ↔ ¬ Closed before) ∧
    run rules w = (do
      let m ← scan rules none before
      let k ← carryOutAll rules (currentSection none before) (Request.ofDirective directive)
      modify fun w => w.marked 1
      let n ← scan rules (currentSection none before) []
      modify Work.excised
      return m + (k + n) : Step Nat) w := by
  intro heading directive w rules before
  have hpage : w.draft.page.blocks = before ++ ⟨1, directive⟩ :: [] := rfl
  have hfor : isFor rules.target directive = true := by decide
  obtain ⟨hrun, hagree, -⟩ := run_at_directive hpage hfor
  exact ⟨hpage, hfor, hagree, hrun⟩

/-- A strict run does not fail at a directive below a heading of level one: it merges into the
section that the heading closes. -/
theorem run_into_closed_section :
    let cs : List Node :=
      [.element "head3" [] [.text "GET /a"], .element "head4" [] [.text "Input"],
        .element "over-text" [] [.element "item-text" [] [.text "q"]],
        .element "head3" [] [.text "GET /b"], .element "head1" [] [.text "Appendix"],
        .element "for" [("target", .text "docviewer")]
          [.element "Data" [] [.text "input-from GET /a"]]]
    let w : Work := ⟨Draft.ofPage (Page.ofElement "Document" [] cs), []⟩
    let place : Place := ⟨some "GET /b", some "Input"⟩
    filedSection (w.draft.page.blocks.take 5) = none ∧
    succeeds (run ⟨"docviewer", true⟩) w = true ∧
    w.draft.lookup place = none ∧
    ((finalWork (run ⟨"docviewer", true⟩) w).draft.lookup place).isSome = true :=
  ⟨by decide +kernel, by decide +kernel, by decide +kernel, by decide +kernel⟩

end RouteDocs.Directive
