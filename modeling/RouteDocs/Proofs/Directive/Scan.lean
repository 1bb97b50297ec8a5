import RouteDocs.Proofs.Directive.Mark

/-!
# The scan and its errands

The scan carries out the requests of directives as it meets them and marks the
directives in between. What it carries out it executes, and a mark makes no
difference to an errand. So a scan does what the errands of its blocks do, one
after the other, and then all the marks.

Results:
* `carryOut_ok`, `carryOutAll_ok`: a request that is carried out is executed.
* `scan_ok`, `run_ok`: a scan that ends well, and a run, leave what the errands and then the marks
  leave; a strict one has executed all errands.
* `scan_lenient`, `run_lenient`: a lenient scan ends well, and so does a lenient run.
-/
namespace RouteDocs.Directive

/-! ## Carrying out is executing -/

section
variable {rules : DirectiveRules} {w w' : Work} {m : Nat}

/-- A request that is carried out without a failure is executed, or skipped by a lenient run. -/
theorem carryOut_ok {e : Errand} (h : carryOut rules e.routeSection e.request w = .ok m w') :
    execute w.draft e = some w'.draft ∧ m = 1 ∨
      execute w.draft e = none ∧ Same w'.draft w.draft ∧ m = 0 ∧ rules.strict = false := by
  have hrefused : ∀ cause (v : Work), Same v.draft w.draft → refuse rules cause v = .ok m w' →
      Same w'.draft w.draft ∧ m = 0 ∧ rules.strict = false := by
    intro cause v hv hrefuse
    rw [refuse_apply] at hrefuse
    cases hstrict : rules.strict with
    | true =>
      rw [hstrict] at hrefuse
      cases hrefuse
    | false =>
      rw [hstrict] at hrefuse
      cases hrefuse
      exact ⟨hv, rfl, rfl⟩
  cases hs : e.routeSection with
  | none =>
    rw [hs, carryOut_none] at h
    exact .inr ⟨execute_eq_none_iff.2 (.inl hs), hrefused _ w rfl h⟩
  | some into =>
    rw [hs] at h
    cases hl : w.draft.lookup ⟨some e.request.reference, some e.request.kind.label⟩ with
    | none =>
      rw [carryOut_missing hl] at h
      exact .inr ⟨execute_eq_none_iff.2 (.inr hl), hrefused _ w.withCatalog rfl h⟩
    | some source =>
      rw [carryOut_found hl] at h
      cases h
      exact .inl ⟨execute_eq_some_iff.2 ⟨into, source, hs, hl, rfl⟩, rfl⟩

/-- Requests are executed in turn, all of them by a strict run. -/
theorem carryOutAll_ok {routeSection : Option String} {rs : List Request}
    (h : carryOutAll rules routeSection rs w = .ok m w') :
    let done := executeAll w.draft (rs.map (⟨routeSection, ·⟩))
    Same w'.draft done.1 ∧ m = done.2 ∧ (rules.strict = true → m = rs.length) := by
  induction rs generalizing w m with
  | nil =>
    cases h
    exact ⟨rfl, rfl, fun _ => rfl⟩
  | cons r rest ih =>
    rw [carryOutAll] at h
    obtain ⟨k, w₁, hfirst, h⟩ := bind_ok h
    obtain ⟨n, w₂, hrest, h⟩ := bind_ok h
    cases h
    obtain ⟨hsame, hcount, hall⟩ := ih hrest
    rw [List.map_cons, executeAll]
    rcases carryOut_ok (e := ⟨routeSection, r⟩) hfirst with ⟨hexecute, rfl⟩ |
      ⟨hexecute, hkept, rfl, hlenient⟩
    · simp only [hexecute]
      refine ⟨hsame, by rw [hcount, Nat.add_comm], fun hstrict => ?_⟩
      rw [hall hstrict, List.length_cons, Nat.add_comm]
    · simp only [hexecute]
      obtain ⟨hkept, hsize⟩ := hkept.executeAll (rest.map (⟨routeSection, ·⟩))
      refine ⟨hsame.trans hkept, by rw [Nat.zero_add, hcount, hsize], fun hstrict => ?_⟩
      rw [hlenient] at hstrict
      cases hstrict

/-! ## The scan -/

def directiveLabels (target : String) (bs : List Block) : List Nat :=
  (bs.filter fun b => isFor target b.node).map (·.label)

theorem directiveLabels_directive {target : String} {b : Block} (h : isFor target b.node = true)
    (rest : List Block) :
    directiveLabels target (b :: rest) = b.label :: directiveLabels target rest := by
  rw [directiveLabels, List.filter_cons, if_pos h, List.map_cons, directiveLabels]

theorem directiveLabels_other {target : String} {b : Block} (h : isFor target b.node = false)
    (rest : List Block) : directiveLabels target (b :: rest) = directiveLabels target rest := by
  rw [directiveLabels, List.filter_cons, if_neg (by simp [h]), directiveLabels]

/-- What a scan that ends well has done at a directive, and what it has left to do. -/
theorem scan_directive_ok {b : Block} {rest : List Block} {routeSection : Option String}
    (hfor : isFor rules.target b.node = true)
    (h : scan rules routeSection (b :: rest) w = .ok m w') :
    ∃ k w₁ n, carryOutAll rules routeSection (Request.ofDirective b.node) w = .ok k w₁ ∧
      scan rules routeSection rest (w₁.marked b.label) = .ok n w' ∧ m = k + n := by
  rw [scan_directive hfor] at h
  obtain ⟨k, w₁, hfirst, h⟩ := bind_ok h
  obtain ⟨⟨⟩, w₂, hmark, h⟩ := bind_ok h
  cases hmark
  obtain ⟨n, w₃, hscan, h⟩ := bind_ok h
  cases h
  exact ⟨k, w₁, n, hfirst, hscan, rfl⟩

/-- A scan that ends well leaves what its errands, executed in turn, and then the marks leave. A
strict one has executed them all. -/
theorem scan_ok {bs : List Block} {routeSection : Option String}
    (hlabels : ∀ b ∈ bs, b.label < w.draft.page.nextLabel)
    (h : scan rules routeSection bs w = .ok m w') :
    let es := errandsFrom rules.target routeSection (bs.map (·.node))
    let done := executeAll w.draft es
    Same w'.draft (markAll done.1 (directiveLabels rules.target bs)) ∧ m = done.2 ∧
      (rules.strict = true → m = es.length) := by
  induction bs generalizing routeSection w m with
  | nil =>
    cases h
    exact ⟨rfl, rfl, fun _ => rfl⟩
  | cons b rest ih =>
    have hrest : ∀ c ∈ rest, c.label < w.draft.page.nextLabel := fun c hc =>
      hlabels c (List.mem_cons_of_mem b hc)
    rw [List.map_cons]
    cases hfor : isFor rules.target b.node with
    | true =>
      obtain ⟨k, w₁, n, hfirst, hscan, rfl⟩ := scan_directive_ok hfor h
      obtain ⟨hsame, rfl, hall⟩ := carryOutAll_ok hfirst
      have hgrown := nextLabel_executeAll w.draft
        ((Request.ofDirective b.node).map (⟨routeSection, ·⟩))
      have hhere := Nat.lt_of_lt_of_le (hlabels b List.mem_cons_self) hgrown
      have hlater : ∀ c ∈ rest, c.label < (w₁.marked b.label).draft.page.nextLabel := by
        intro c hc
        have hkept : (w₁.marked b.label).draft.page.nextLabel = w₁.draft.page.nextLabel := rfl
        rw [hkept, hsame.page]
        exact Nat.lt_of_lt_of_le (hrest c hc) hgrown
      obtain ⟨hsame', rfl, hall'⟩ := ih hlater hscan
      -- the mark is made before the later errands; it can as well be made after them
      obtain ⟨hdone, hcount⟩ := (hsame.marked b.label).executeAll
        (errandsFrom rules.target routeSection (rest.map (·.node)))
      rw [executeAll_marked hhere] at hdone hcount
      rw [errandsFrom_directive hfor, directiveLabels_directive hfor]
      dsimp only
      rw [executeAll_append]
      refine ⟨hsame'.trans (hdone.markAll _), congrArg (_ + ·) hcount, fun hstrict => ?_⟩
      rw [hall hstrict, hall' hstrict, List.length_append, List.length_map]
    | false =>
      rw [scan_other hfor] at h
      rw [errandsFrom_other hfor, directiveLabels_other hfor]
      exact ih hrest h

/-- A run that ends well leaves what its errands, then the marks, then the removal leave. -/
theorem run_ok {name : String} {as : Attributes} {cs : List Node} {log : List Notice}
    (h : run rules ⟨Draft.ofPage (Page.ofElement name as cs), log⟩ = .ok m w') :
    let es := errands rules.target cs
    let done := executeAll (Draft.ofPage (Page.ofElement name as cs)) es
    ∃ w₁ : Work, w' = w₁.excised ∧
      Same w₁.draft
        (markAll done.1 (directiveLabels rules.target (Page.ofElement name as cs).blocks)) ∧
      m = done.2 ∧ (rules.strict = true → m = es.length) := by
  intro es done
  have hp : (Page.ofElement name as cs).WellLabelled := Page.wellLabelled_ofElement name as cs
  have hnodes : (Page.ofElement name as cs).blocks.map (·.node) = cs := Page.map_node_label 0 cs
  rw [run_apply] at h
  split at h
  · rename_i k w₁ hscan
    cases h
    have hok := scan_ok (fun b hb => hp.below b (List.mem_append_left _ hb)) hscan
    rw [hnodes, ← errands_eq] at hok
    exact ⟨w₁, rfl, hok⟩
  · cases h

/-! ## Lenient runs -/

def EndsWell {α : Type} (step : Step α) : Prop :=
  ∀ w, ∃ a w', step w = .ok a w'

theorem endsWell_bind {α β : Type} {step : Step α} {f : α → Step β} (h : EndsWell step)
    (hf : ∀ a, EndsWell (f a)) : EndsWell (step >>= f) := by
  intro w
  obtain ⟨a, w₁, hstep⟩ := h w
  obtain ⟨b, w₂, hnext⟩ := hf a w₁
  refine ⟨b, w₂, ?_⟩
  simp only [bind, EStateM.bind, hstep]
  exact hnext

theorem endsWell_pure {α : Type} (a : α) : EndsWell (pure a : Step α) :=
  fun w => ⟨a, w, rfl⟩

theorem endsWell_modify (f : Work → Work) : EndsWell (modify f : Step Unit) :=
  fun w => ⟨(), f w, rfl⟩

theorem carryOut_lenient (hlenient : rules.strict = false) (routeSection : Option String)
    (r : Request) : EndsWell (carryOut rules routeSection r) := by
  intro w
  have hrefused : ∀ cause (v : Work), ∃ m w', refuse rules cause v = .ok m w' := by
    intro cause v
    rw [refuse_apply, hlenient]
    exact ⟨0, _, rfl⟩
  cases routeSection with
  | none => exact hrefused _ w
  | some into =>
    cases hl : w.draft.lookup ⟨some r.reference, some r.kind.label⟩ with
    | none =>
      rw [carryOut_missing hl]
      exact hrefused _ w.withCatalog
    | some source => exact ⟨1, _, carryOut_found hl⟩

theorem carryOutAll_lenient (hlenient : rules.strict = false) (routeSection : Option String)
    (rs : List Request) : EndsWell (carryOutAll rules routeSection rs) := by
  induction rs with
  | nil => exact endsWell_pure 0
  | cons r rest ih =>
    rw [carryOutAll]
    refine endsWell_bind (carryOut_lenient hlenient routeSection r) fun m => ?_
    exact endsWell_bind ih fun n => endsWell_pure _

/-- A lenient scan ends well. -/
theorem scan_lenient (hlenient : rules.strict = false) (routeSection : Option String)
    (bs : List Block) : EndsWell (scan rules routeSection bs) := by
  induction bs generalizing routeSection with
  | nil => exact endsWell_pure 0
  | cons b rest ih =>
    cases hfor : isFor rules.target b.node with
    | true =>
      rw [scan_directive hfor]
      refine endsWell_bind (carryOutAll_lenient hlenient routeSection _) fun m => ?_
      refine endsWell_bind (endsWell_modify _) fun _ => ?_
      exact endsWell_bind (ih routeSection) fun n => endsWell_pure _
    | false =>
      rw [scan_other hfor]
      exact ih _

/-- A lenient run ends well. -/
theorem run_lenient (hlenient : rules.strict = false) : EndsWell (run rules) := by
  intro w
  obtain ⟨m, w', hscan⟩ := scan_lenient hlenient none w.draft.page.blocks w
  rw [run_apply, hscan]
  exact ⟨m, w'.excised, rfl⟩

end

end RouteDocs.Directive
