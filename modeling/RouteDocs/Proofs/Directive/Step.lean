import RouteDocs.Directive
import RouteDocs.Proofs.Bind

/-!
# The steps of a run

A run is made of requests that are carried out and of directives that are
marked. What every one of them keeps, the run keeps, whether it ends or fails:
a failure leaves the work as the last step before it did.

Results:
* `finalWork_carryOut`: what one request does to the work.
* `scan_directive`, `scan_other`: what the scan does at a node.
* `keeps_scan`: a property of the work that requests and marks keep is kept by the scan.
* `run_apply`: a run is the scan and, if that ends well, the removal of what is marked.
-/
namespace RouteDocs

namespace Directive

variable {α β : Type} {I : Work → Prop}

/-- The work as a step leaves it, whether it ends or fails. -/
def finalWork (m : Step α) (w : Work) : Work :=
  match m w with
  | .ok _ w => w
  | .error _ w => w

/-- Whether a step ends without a failure. -/
def succeeds (m : Step α) (w : Work) : Bool :=
  match m w with
  | .ok .. => true
  | .error .. => false

/-- A step that keeps a property of the work, whether it ends or fails. -/
def Keeps (I : Work → Prop) (m : Step α) : Prop :=
  ∀ w, I w → I (finalWork m w)

theorem keeps_pure (a : α) : Keeps I (pure a : Step α) :=
  fun _ h => h

theorem keeps_modify {f : Work → Work} (hf : ∀ w, I w → I (f w)) : Keeps I (modify f : Step Unit) :=
  hf

theorem finalWork_bind (m : Step α) (f : α → Step β) (w : Work) :
    finalWork (m >>= f) w =
      match m w with
      | .ok a w => finalWork (f a) w
      | .error _ w => w := by
  simp only [finalWork, bind, EStateM.bind]
  cases m w <;> rfl

theorem keeps_bind {m : Step α} {f : α → Step β} (hm : Keeps I m) (hf : ∀ a, Keeps I (f a)) :
    Keeps I (m >>= f) := by
  intro w hw
  have hmid := hm w hw
  rw [finalWork_bind]
  rw [finalWork] at hmid
  cases h : m w with
  | ok a w' =>
    rw [h] at hmid
    exact hf a w' hmid
  | error e w' =>
    rw [h] at hmid
    exact hmid

/-! ## One request -/

def Work.withCatalog (w : Work) : Work :=
  { w with draft := w.draft.withCatalog }

def Work.note (w : Work) (notices : List Notice) : Work :=
  { w with log := w.log ++ notices }

/-- The work after one list has been merged into the list of a section. -/
def Work.merged (w : Work) (into : String) (r : Request) (source : Nat) : Work :=
  let (d, dest, notices) := w.draft.ensureList into r.kind.label
  { draft := { d with page := mergeBlocks d.page source dest }
    log := w.log ++ notices ++ [.merging r.kind r.reference into] }

/-- Of the list that a merge is made into, nothing is noted but that it was put in. -/
theorem eq_inserted_of_mem_ensureList {d : Draft} {routeSection kind : String} {n : Notice}
    (h : n ∈ (d.ensureList routeSection kind).2.2) :
    ∃ withHeading position, n = .inserted withHeading kind position := by
  unfold Draft.ensureList at h
  dsimp only at h
  split at h
  · cases h
  · split at h
    · cases h
    · exact ⟨_, _, List.mem_singleton.1 h⟩

theorem log_merged (w : Work) (into : String) (r : Request) (source : Nat) :
    (w.merged into r source).log = w.log ++ ((w.draft.ensureList into r.kind.label).2.2 ++
      [.merging r.kind r.reference into]) :=
  List.append_assoc _ _ _

theorem refuse_apply (rules : DirectiveRules) (cause : Fault) (w : Work) :
    refuse rules cause w =
      if rules.strict then .error cause w else .ok 0 (w.note [.skipped cause]) := by
  unfold refuse
  split <;> rfl

theorem finalWork_refuse (rules : DirectiveRules) (cause : Fault) (w : Work) :
    ∃ notices, finalWork (refuse rules cause) w = w.note notices := by
  rw [finalWork, refuse_apply]
  cases rules.strict with
  | true => exact ⟨[], by simp [Work.note]⟩
  | false => exact ⟨[.skipped cause], rfl⟩

theorem carryOut_none (rules : DirectiveRules) (r : Request) :
    carryOut rules none r = refuse rules (.outsideSection r.kind r.reference) :=
  rfl

/-- In a section a request first has the catalog made. -/
theorem carryOut_some (rules : DirectiveRules) (into : String) (r : Request) (w : Work) :
    carryOut rules (some into) r w =
      (match w.draft.lookup ⟨some r.reference, some r.kind.label⟩ with
        | none => refuse rules (.sourceMissing r.kind r.reference into)
        | some source => do
          set (w.withCatalog.merged into r source)
          return 1 : Step Nat) w.withCatalog :=
  rfl

theorem carryOut_missing {rules : DirectiveRules} {into : String} {r : Request} {w : Work}
    (h : w.draft.lookup ⟨some r.reference, some r.kind.label⟩ = none) :
    carryOut rules (some into) r w =
      refuse rules (.sourceMissing r.kind r.reference into) w.withCatalog := by
  rw [carryOut_some, h]

theorem carryOut_found {rules : DirectiveRules} {into : String} {r : Request} {w : Work}
    {source : Nat} (h : w.draft.lookup ⟨some r.reference, some r.kind.label⟩ = some source) :
    carryOut rules (some into) r w = .ok 1 (w.merged into r source) := by
  rw [carryOut_some, h]
  rfl

/-- A request either leaves the page as it is or merges a list that is on file. -/
theorem finalWork_carryOut (rules : DirectiveRules) (routeSection : Option String) (r : Request)
    (w : Work) :
    (∃ notices, finalWork (carryOut rules routeSection r) w = w.note notices ∨
      finalWork (carryOut rules routeSection r) w = w.withCatalog.note notices) ∨
    ∃ into source, routeSection = some into ∧
      w.draft.lookup ⟨some r.reference, some r.kind.label⟩ = some source ∧
      finalWork (carryOut rules routeSection r) w = w.merged into r source := by
  cases routeSection with
  | none =>
    obtain ⟨notices, h⟩ := finalWork_refuse rules (.outsideSection r.kind r.reference) w
    exact .inl ⟨notices, .inl h⟩
  | some into =>
    cases h : w.draft.lookup ⟨some r.reference, some r.kind.label⟩ with
    | none =>
      obtain ⟨notices, hfinal⟩ :=
        finalWork_refuse rules (.sourceMissing r.kind r.reference into) w.withCatalog
      refine .inl ⟨notices, .inr ?_⟩
      rw [← hfinal, finalWork, finalWork, carryOut_missing h]
    | some source =>
      refine .inr ⟨into, source, rfl, rfl, ?_⟩
      rw [finalWork, carryOut_found h]

/-! ## The scan -/

theorem isDirective_of_isFor {target : String} {n : Node} (h : isFor target n = true) :
    n.isA .directive = true := by
  rw [isFor, Bool.and_eq_true] at h
  exact h.1

theorem isFor_eq_false (target : String) {n : Node} {k : Kind} (h : n.isA k = true)
    (hk : k ≠ .directive) : isFor target n = false := by
  rw [isFor, Node.isA_eq_false h hk, Bool.false_and]

def Work.marked (w : Work) (l : Nat) : Work :=
  { w with draft := { w.draft with page := w.draft.page.modify l mark } }

variable {rules : DirectiveRules}

/-- What the scan does at a directive. -/
theorem scan_directive {b : Block} (hfor : isFor rules.target b.node = true)
    (routeSection : Option String) (rest : List Block) :
    scan rules routeSection (b :: rest) = (do
      let m ← carryOutAll rules routeSection (Request.ofDirective b.node)
      modify fun w => w.marked b.label
      let n ← scan rules routeSection rest
      return m + n) := by
  have h3 : b.node.isA .head3 = false := Node.isA_eq_false (isDirective_of_isFor hfor) (by decide)
  rw [scan, h3, if_neg Bool.false_ne_true, hfor, if_pos rfl]
  rfl

/-- The scan goes past any other node; at a heading of level three it enters a section. -/
theorem scan_other {b : Block} (hfor : isFor rules.target b.node = false)
    (routeSection : Option String) (rest : List Block) :
    scan rules routeSection (b :: rest) =
      scan rules (if b.node.isA .head3 then some b.node.flatten else routeSection) rest := by
  rw [scan, hfor, if_neg Bool.false_ne_true]
  split <;> rfl

theorem keeps_carryOutAll {routeSection : Option String} {rs : List Request}
    (h : ∀ r ∈ rs, Keeps I (carryOut rules routeSection r)) :
    Keeps I (carryOutAll rules routeSection rs) := by
  induction rs with
  | nil => exact keeps_pure 0
  | cons r rest ih =>
    rw [carryOutAll]
    refine keeps_bind (h r List.mem_cons_self) fun m => ?_
    exact keeps_bind (ih fun r' hr' => h r' (List.mem_cons_of_mem _ hr')) fun n => keeps_pure _

/-- What requests keep that stand in no section or in one with a heading among the blocks,
and marks on directives among the blocks keep too, the scan keeps. -/
theorem keeps_scan {bs : List Block} {routeSection : Option String} {InScope : String → Prop}
    (hrequest : ∀ routeSection r, (∀ into, routeSection = some into → InScope into) →
      Keeps I (carryOut rules routeSection r))
    (hmark : ∀ b ∈ bs, isFor rules.target b.node = true → ∀ w, I w → I (w.marked b.label))
    (hstart : ∀ into, routeSection = some into → InScope into)
    (hheading : ∀ b ∈ bs, b.node.isA .head3 = true → InScope b.node.flatten) :
    Keeps I (scan rules routeSection bs) := by
  induction bs generalizing routeSection with
  | nil => exact keeps_pure 0
  | cons b rest ih =>
    have hmarks := fun c hc => hmark c (List.mem_cons_of_mem b hc)
    have hheadings := fun c hc => hheading c (List.mem_cons_of_mem b hc)
    cases hfor : isFor rules.target b.node with
    | true =>
      rw [scan_directive hfor]
      refine keeps_bind (keeps_carryOutAll fun r _ => hrequest _ r hstart) fun m => ?_
      refine keeps_bind (keeps_modify (hmark b List.mem_cons_self hfor)) fun _ => ?_
      exact keeps_bind (ih hmarks hstart hheadings) fun n => keeps_pure _
    | false =>
      rw [scan_other hfor]
      refine ih hmarks (fun into hinto => ?_) hheadings
      split at hinto
      · rename_i h3
        cases hinto
        exact hheading b List.mem_cons_self h3
      · exact hstart into hinto

/-! ## The run -/

/-- The work after what is marked has been taken off the page. -/
def Work.excised (w : Work) : Work :=
  { w with draft := { w.draft with page := w.draft.page.keep fun n => !isMarked n } }

theorem run_eq (rules : DirectiveRules) (w : Work) :
    run rules w = (do
      let m ← scan rules none w.draft.page.blocks
      modify Work.excised
      return m : Step Nat) w :=
  rfl

/-- A run that fails ends before anything is taken off the page. -/
theorem run_apply (rules : DirectiveRules) (w : Work) :
    run rules w =
      match scan rules none w.draft.page.blocks w with
      | .ok merges w => .ok merges w.excised
      | .error e w => .error e w := by
  rw [run_eq]
  simp only [bind, EStateM.bind]
  cases scan rules none w.draft.page.blocks w <;> rfl

theorem finalWork_run (rules : DirectiveRules) (w : Work) :
    finalWork (run rules) w = finalWork (scan rules none w.draft.page.blocks) w ∨
      finalWork (run rules) w = (finalWork (scan rules none w.draft.page.blocks) w).excised := by
  rw [finalWork, run_apply, finalWork]
  cases scan rules none w.draft.page.blocks w with
  | ok merges w' => exact .inr rfl
  | error e w' => exact .inl rfl

end Directive

end RouteDocs
