import RouteDocs.Proofs.Directive.Payload
import RouteDocs.Proofs.Directive.Step

/-!
# The attempts of a scan

Every request that a scan comes to is attempted: the merge is made and noted, or
it is skipped with a note, or it fails and ends a strict scan. So the log tells,
in order, which requests were attempted, and a failure which was the last.

Results:
* `attempts_carryOut`, `attempts_carryOutAll`: the attempts of requests.
* `attempts_scan`, `run_attempts`: a scan, and a run, attempt the requests that the directives
  carry, in order and no others.
-/
namespace RouteDocs

/-- The attempt that has failed: the reference and the label of the list. -/
def Fault.attempt? : Fault → Option (String × String)
  | .outsideSection kind reference => some (reference, kind.label)
  | .sourceMissing kind reference _ => some (reference, kind.label)
  | _ => none

/-- The attempt that a notice tells of. -/
def Notice.attempt? : Notice → Option (String × String)
  | .merging kind reference _ => some (reference, kind.label)
  | .skipped cause => cause.attempt?
  | .inserted .. | .unrecognised _ => none

/-- The attempt to meet a request: the reference and the label of the list. -/
def Request.attempt (r : Request) : String × String :=
  (r.reference, r.kind.label)

namespace Directive

open Request

variable {α β : Type} {rules : DirectiveRules}

/-- Work that has gone on with attempts at these requests, in order. -/
def Attempted (w w' : Work) (rs : List Request) : Prop :=
  ∃ notices, w'.log = w.log ++ notices ∧
    notices.filterMap Notice.attempt? = rs.map Request.attempt

theorem Attempted.none {w w' : Work} (h : w'.log = w.log) : Attempted w w' [] :=
  ⟨[], by rw [h, List.append_nil], rfl⟩

theorem Attempted.trans {w₁ w₂ w₃ : Work} {rs qs : List Request} (h : Attempted w₁ w₂ rs)
    (h' : Attempted w₂ w₃ qs) : Attempted w₁ w₃ (rs ++ qs) := by
  obtain ⟨notices, hlog, hattempts⟩ := h
  obtain ⟨notices', hlog', hattempts'⟩ := h'
  refine ⟨notices ++ notices', by rw [hlog', hlog, List.append_assoc], ?_⟩
  rw [List.filterMap_append, hattempts, hattempts', List.map_append]

/-- A step attempts these requests in order. Only a strict one fails, at one of them, and attempts
none that come after. -/
def AttemptsFrom (rules : DirectiveRules) (w : Work) (step : Step α) (rs : List Request) : Prop :=
  match step w with
  | .ok _ w' => Attempted w w' rs
  | .error fault w' => rules.strict = true ∧ ∃ done r later, rs = done ++ r :: later ∧
      Attempted w w' done ∧ fault.attempt? = some r.attempt

theorem AttemptsFrom.all {w : Work} {step : Step α} {rs : List Request}
    (h : AttemptsFrom rules w step rs) (hlenient : rules.strict = false) :
    ∃ a w', step w = .ok a w' ∧ Attempted w w' rs := by
  rw [AttemptsFrom] at h
  cases hstep : step w with
  | ok a w' =>
    rw [hstep] at h
    exact ⟨a, w', rfl, h⟩
  | error fault w' =>
    rw [hstep] at h
    cases hlenient.symm.trans h.1

/-- A step that attempts these requests wherever it starts. -/
def Attempts (rules : DirectiveRules) (step : Step α) (rs : List Request) : Prop :=
  ∀ w, AttemptsFrom rules w step rs

theorem attempts_pure (a : α) : Attempts rules (pure a : Step α) [] :=
  fun _ => .none rfl

theorem attempts_modify {f : Work → Work} (hf : ∀ w, (f w).log = w.log) :
    Attempts rules (modify f : Step Unit) [] :=
  fun w => .none (hf w)

theorem attempts_bind {step : Step α} {next : α → Step β} {rs qs : List Request}
    (h : Attempts rules step rs) (hnext : ∀ a, Attempts rules (next a) qs) :
    Attempts rules (step >>= next) (rs ++ qs) := by
  intro w
  have hw := h w
  rw [AttemptsFrom] at hw ⊢
  cases hstep : step w with
  | error fault w₁ =>
    rw [hstep] at hw
    rw [bind_of_error hstep]
    obtain ⟨hstrict, done, r, later, rfl, hdone, hfault⟩ := hw
    exact ⟨hstrict, done, r, later ++ qs, by simp, hdone, hfault⟩
  | ok a w₁ =>
    rw [hstep] at hw
    have hrest := hnext a w₁
    rw [AttemptsFrom] at hrest
    rw [bind_of_ok hstep]
    cases hlast : next a w₁ with
    | ok b w₂ =>
      rw [hlast] at hrest
      exact Attempted.trans hw hrest
    | error fault w₂ =>
      rw [hlast] at hrest
      obtain ⟨hstrict, done, r, later, rfl, hdone, hfault⟩ := hrest
      exact ⟨hstrict, rs ++ done, r, later, by simp, Attempted.trans hw hdone, hfault⟩

/-! ## Requests -/

theorem attempts_refuse {cause : Fault} {r : Request} (h : cause.attempt? = some r.attempt) :
    Attempts rules (refuse rules cause) [r] := by
  intro w
  rw [AttemptsFrom, refuse_apply]
  cases hstrict : rules.strict with
  | true => exact ⟨rfl, [], r, [], rfl, .none rfl, h⟩
  | false =>
    refine ⟨[.skipped cause], rfl, ?_⟩
    rw [List.filterMap_cons, Notice.attempt?, h]
    rfl

theorem attempted_merged (w : Work) (into : String) (r : Request) (source : Nat) :
    Attempted w (w.merged into r source) [r] := by
  refine ⟨_, log_merged w into r source, ?_⟩
  have hinserted : (w.draft.ensureList into r.kind.label).2.2.filterMap Notice.attempt? = [] := by
    refine List.filterMap_eq_nil_iff.2 fun n hn => ?_
    obtain ⟨withHeading, position, rfl⟩ := eq_inserted_of_mem_ensureList hn
    rfl
  rw [List.filterMap_append, hinserted]
  rfl

/-- A request that is carried out is attempted, whether it can be met or not. -/
theorem attempts_carryOut (routeSection : Option String) (r : Request) :
    Attempts rules (carryOut rules routeSection r) [r] := by
  intro w
  cases routeSection with
  | none => exact attempts_refuse rfl w
  | some into =>
    cases hlookup : w.draft.lookup ⟨some r.reference, some r.kind.label⟩ with
    | none =>
      rw [AttemptsFrom, carryOut_missing hlookup]
      exact attempts_refuse rfl w.withCatalog
    | some source =>
      rw [AttemptsFrom, carryOut_found hlookup]
      exact attempted_merged w into r source

theorem attempts_carryOutAll (routeSection : Option String) (rs : List Request) :
    Attempts rules (carryOutAll rules routeSection rs) rs := by
  induction rs with
  | nil => exact attempts_pure 0
  | cons r rest ih =>
    have hall : [r] ++ (rest ++ []) = r :: rest := by simp
    rw [carryOutAll, ← hall]
    refine attempts_bind (attempts_carryOut routeSection r) fun m => ?_
    exact attempts_bind ih fun n => attempts_pure _

/-! ## Directives -/

inductive BlocksCarry (target : String) : List Block → List Request → Prop where
  | nil : BlocksCarry target [] []
  | directive {b : Block} {rs : List Request} {rest : List Block} {qs : List Request}
      (hfor : isFor target b.node = true) (h : Carries b.node rs)
      (hrest : BlocksCarry target rest qs) : BlocksCarry target (b :: rest) (rs ++ qs)
  | other {b : Block} {rest : List Block} {qs : List Request}
      (hfor : isFor target b.node = false) (hrest : BlocksCarry target rest qs) :
      BlocksCarry target (b :: rest) qs

/-- A scan attempts the requests that the directives carry, in order and no others. -/
theorem attempts_scan {bs : List Block} {rs : List Request} (h : BlocksCarry rules.target bs rs)
    (routeSection : Option String) : Attempts rules (scan rules routeSection bs) rs := by
  induction h generalizing routeSection with
  | nil => exact attempts_pure 0
  | @directive b rs rest qs hfor h _ ih =>
    have hall : rs ++ ([] ++ (qs ++ [])) = rs ++ qs := by simp
    rw [scan_directive hfor, ofDirective_of_carries h, ← hall]
    refine attempts_bind (attempts_carryOutAll routeSection rs) fun m => ?_
    refine attempts_bind (attempts_modify fun _ => rfl) fun _ => ?_
    exact attempts_bind (ih routeSection) fun n => attempts_pure _
  | @other b rest qs hfor _ ih =>
    rw [scan_other hfor]
    exact ih _

/-- A run attempts the requests that are written in the directives of the page, in order and no
others. -/
theorem run_attempts {w : Work} {rs : List Request}
    (h : BlocksCarry rules.target w.draft.page.blocks rs) : AttemptsFrom rules w (run rules) rs := by
  have hscan := attempts_scan h none w
  rw [AttemptsFrom] at hscan ⊢
  rw [run_apply]
  cases hrun : scan rules none w.draft.page.blocks w with
  | ok merges w' =>
    rw [hrun] at hscan
    obtain ⟨notices, hlog, hattempts⟩ := hscan
    exact ⟨notices, hlog, hattempts⟩
  | error fault w' =>
    rw [hrun] at hscan
    exact hscan

/-- Requests in two data elements, among lines that look like requests, between different
boundaries, with blanks of different kinds; what stands elsewhere in the directive is not read. -/
theorem run_attempts_scattered :
    let first := "\tinput-from\u2003 GET /a \x85see below\r\noutput-from\xa0GET  /b"
    let second := "input-from \x0coutput-from\tGET /c\u2028"
    let directive := Node.element "for" [("target", .text "docviewer")]
      [.text "input-from GET /d", .element "Para" [] [.element "Data" [] [.text first]],
        .element "Data" [] [.element "B" [] [.text "input-from GET /e"], .text second]]
    let page := Page.ofElement "Document" [] [.element "head3" [] [.text "GET /x"], directive]
    let w : Work := ⟨Draft.ofPage page, []⟩
    ∃ merges w', run ⟨"docviewer", false⟩ w = .ok merges w' ∧
      w'.log.filterMap Notice.attempt? =
        [("GET /a", "Input"), ("GET  /b", "Output"), ("GET /c", "Output")] := by
  intro first second directive page w
  have hline (line : List Char) (h : line.any Text.isLineEnd = false) :
      ∀ c ∈ line, Text.isLineEnd c = false :=
    fun c hc => Bool.eq_false_iff.2 (List.any_eq_false.1 h c hc)
  have hother (line : List Char) (h : decide (IsForm (Text.trim line)) = false) :
      IsLine line none := .other (of_decide_eq_false h)
  have hrequest (before gap after : List Char) (r : Request) (hbefore : before.all Text.isBlank)
      (hgap : gap.all Text.isBlank) (hsome : gap ≠ []) (hafter : after.all Text.isBlank)
      (hreference : IsReference r.reference.toList) :
      IsLine (written before gap after r) (some r) :=
    .request (List.all_eq_true.1 hbefore) (List.all_eq_true.1 hgap) hsome
      (List.all_eq_true.1 hafter) hreference
  have hfirst : Writes first.toList [⟨.input, "GET /a"⟩, ⟨.output, "GET  /b"⟩] := by
    have htext : first.toList = written ['\t'] ['\u2003', ' '] [' '] ⟨.input, "GET /a"⟩ ++
        (['\x85'] ++ ("see below".toList ++ (['\r', '\n'] ++
          written [] ['\xa0'] [] ⟨.output, "GET  /b"⟩))) := by decide
    have ha := hrequest ['\t'] ['\u2003', ' '] [' '] ⟨.input, "GET /a"⟩ (by decide) (by decide)
      (by decide) (by decide) (by decide)
    have hb := hrequest [] ['\xa0'] [] ⟨.output, "GET  /b"⟩ (by decide) (by decide) (by decide)
      (by decide) (by decide)
    rw [htext]
    exact .more ha (hline _ (by decide)) (.single (by decide)) (.more (hother _ (by decide))
      (hline _ (by decide)) .returnFeed (.last hb (hline _ (by decide))))
  have hsecond : Writes second.toList [⟨.output, "GET /c"⟩] := by
    have htext : second.toList = "input-from ".toList ++ (['\x0c'] ++
        (written [] ['\t'] [] ⟨.output, "GET /c"⟩ ++ (['\u2028'] ++ []))) := by decide
    have hc := hrequest [] ['\t'] [] ⟨.output, "GET /c"⟩ (by decide) (by decide) (by decide)
      (by decide) (by decide)
    rw [htext]
    exact .more (hother _ (by decide)) (hline _ (by decide)) (.single (by decide))
      (.more hc (hline _ (by decide)) (.single (by decide))
        (.last (hother [] (by decide)) (hline [] (by decide))))
  have hdirective : Carries directive
      [⟨.input, "GET /a"⟩, ⟨.output, "GET  /b"⟩, ⟨.output, "GET /c"⟩] :=
    .inner (by decide) (.cons .text (.cons (.inner (by decide)
      (.cons (.data (.text hfirst .nil)) .nil)) (.cons (.data (.element (.text hsecond .nil))) .nil)))
  have hblocks : BlocksCarry "docviewer" page.blocks
      [⟨.input, "GET /a"⟩, ⟨.output, "GET  /b"⟩, ⟨.output, "GET /c"⟩] := by
    have hlayout : page.blocks = [⟨0, .element "head3" [] [.text "GET /x"]⟩, ⟨1, directive⟩] := rfl
    have hfor : isFor "docviewer" directive = true := by decide
    have hcarries := BlocksCarry.directive (b := ⟨1, directive⟩) hfor hdirective .nil
    rw [hlayout]
    exact .other (by decide) hcarries
  have hattempts : AttemptsFrom ⟨"docviewer", false⟩ w (run ⟨"docviewer", false⟩)
      [⟨.input, "GET /a"⟩, ⟨.output, "GET  /b"⟩, ⟨.output, "GET /c"⟩] := run_attempts hblocks
  obtain ⟨merges, w', hrun, notices, hlog, hnoted⟩ := hattempts.all rfl
  refine ⟨merges, w', hrun, ?_⟩
  rw [hlog]
  exact hnoted
end Directive
end RouteDocs
