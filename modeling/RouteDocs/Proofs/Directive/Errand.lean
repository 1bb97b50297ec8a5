import RouteDocs.Proofs.Directive.Step

/-!
# Errands

What the directives of a page ask for can be read off the page before anything
is done: a row of errands, each a request with the section that it stands in.
Errands are executed one after the other; one that cannot be is skipped.

Results:
* `errands_eq`: the errands are read off by one pass over the nodes.
* `execute_eq_some_iff`, `execute_eq_none_iff`: what an errand does, and when there is none to do.
* `executeAll_append`: a row of errands and then another are executed as one row.
* `Same.executeAll`: it makes no difference to errands whether the catalog has been made.
-/
namespace RouteDocs.Directive

/-! ## Reading the errands -/

/-- A request with the section it stands in. -/
structure Errand where
  routeSection : Option String
  request : Request
  deriving DecidableEq

/-- The text of the last heading of level three among nodes. -/
def lastSection (ns : List Node) : Option String :=
  (ns.filter (Node.isA .head3)).getLast?.map Node.flatten

/-- The errands of the directives among nodes, each in the section of the last heading of level
three before its directive. -/
def errands (target : String) (ns : List Node) : List Errand :=
  ns.zipIdx.flatMap fun (n, i) =>
    if isFor target n then (Request.ofDirective n).map (⟨lastSection (ns.take i), ·⟩) else []

def errandsFrom (target : String) : Option String → List Node → List Errand
  | _, [] => []
  | routeSection, n :: rest =>
    if n.isA .head3 then errandsFrom target (some n.flatten) rest
    else if isFor target n then
      (Request.ofDirective n).map (⟨routeSection, ·⟩) ++ errandsFrom target routeSection rest
    else errandsFrom target routeSection rest

theorem errandsFrom_directive {target : String} {n : Node} (hfor : isFor target n = true)
    (routeSection : Option String) (rest : List Node) :
    errandsFrom target routeSection (n :: rest) =
      (Request.ofDirective n).map (⟨routeSection, ·⟩) ++ errandsFrom target routeSection rest := by
  have h3 : n.isA .head3 = false := Node.isA_eq_false (isDirective_of_isFor hfor) (by decide)
  rw [errandsFrom, h3, if_neg Bool.false_ne_true, hfor, if_pos rfl]

theorem errandsFrom_other {target : String} {n : Node} (hfor : isFor target n = false)
    (routeSection : Option String) (rest : List Node) :
    errandsFrom target routeSection (n :: rest) =
      errandsFrom target (if n.isA .head3 then some n.flatten else routeSection) rest := by
  rw [errandsFrom, hfor, if_neg Bool.false_ne_true]
  split <;> rfl

theorem lastSection_head3 (before : List Node) {n : Node} (h3 : n.isA .head3 = true) :
    lastSection (before ++ [n]) = some n.flatten := by
  rw [lastSection, List.filter_append, List.filter_cons_of_pos h3, List.filter_nil,
    List.getLast?_concat]
  rfl

theorem lastSection_other (before : List Node) {n : Node} (h3 : n.isA .head3 = false) :
    lastSection (before ++ [n]) = lastSection before := by
  rw [lastSection, List.filter_append, List.filter_cons_of_neg (by simp [h3]), List.filter_nil,
    List.append_nil, lastSection]

theorem errandsFrom_lastSection (target : String) (before rest : List Node) :
    ((rest.zipIdx before.length).flatMap fun (n, i) =>
        if isFor target n then
          (Request.ofDirective n).map (⟨lastSection ((before ++ rest).take i), ·⟩)
        else []) = errandsFrom target (lastSection before) rest := by
  induction rest generalizing before with
  | nil => rfl
  | cons n rest ih =>
    have hrest := ih (before ++ [n])
    rw [List.length_append, List.length_singleton, List.append_assoc, List.singleton_append] at hrest
    rw [List.zipIdx_cons, List.flatMap_cons, hrest]
    dsimp only
    rw [List.take_left]
    cases hfor : isFor target n with
    | true =>
      have h3 : n.isA .head3 = false := Node.isA_eq_false (isDirective_of_isFor hfor) (by decide)
      rw [if_pos rfl, lastSection_other before h3, errandsFrom_directive hfor]
    | false =>
      rw [if_neg Bool.false_ne_true, List.nil_append, errandsFrom_other hfor]
      split
      · rename_i h3
        rw [lastSection_head3 before h3]
      · rename_i h3
        rw [lastSection_other before (Bool.eq_false_iff.2 h3)]

/-- The errands are read off by one pass over the nodes. -/
theorem errands_eq (target : String) (ns : List Node) :
    errands target ns = errandsFrom target none ns :=
  errandsFrom_lastSection target [] ns

/-! ## Executing errands -/

/-- Execute an errand: the list on file is merged into the list of the section, which is put in if
it is missing. None if the errand stands in no section or its source has no list. -/
def execute (d : Draft) (e : Errand) : Option Draft := do
  let into ← e.routeSection
  let source ← d.lookup ⟨some e.request.reference, some e.request.kind.label⟩
  let (d, dest, _) := d.ensureList into e.request.kind.label
  return { d with page := mergeBlocks d.page source dest }

/-- Execute errands in turn and skip those that cannot be; the number of the others. -/
def executeAll : Draft → List Errand → Draft × Nat
  | d, [] => (d, 0)
  | d, e :: rest =>
    match execute d e with
    | none => executeAll d rest
    | some d => ((executeAll d rest).1, (executeAll d rest).2 + 1)

theorem execute_eq_some_iff {d d' : Draft} {e : Errand} :
    execute d e = some d' ↔ ∃ into source, e.routeSection = some into ∧
      d.lookup ⟨some e.request.reference, some e.request.kind.label⟩ = some source ∧
      d' = { (d.ensureList into e.request.kind.label).1 with
        page := mergeBlocks (d.ensureList into e.request.kind.label).1.page source
          (d.ensureList into e.request.kind.label).2.1 } := by
  simp only [execute, Option.bind_eq_bind, Option.bind_eq_some_iff, Option.pure_def,
    Option.some.injEq]
  constructor
  · rintro ⟨into, hinto, source, hsource, rfl⟩
    exact ⟨into, source, hinto, hsource, rfl⟩
  · rintro ⟨into, source, hinto, hsource, rfl⟩
    exact ⟨into, hinto, source, hsource, rfl⟩

theorem execute_eq_none_iff {d : Draft} {e : Errand} :
    execute d e = none ↔ e.routeSection = none ∨
      d.lookup ⟨some e.request.reference, some e.request.kind.label⟩ = none := by
  unfold execute
  cases e.routeSection with
  | none => simp
  | some into =>
    cases d.lookup ⟨some e.request.reference, some e.request.kind.label⟩ <;> simp

theorem executeAll_append (d : Draft) (es es' : List Errand) :
    executeAll d (es ++ es') =
      ((executeAll (executeAll d es).1 es').1,
        (executeAll d es).2 + (executeAll (executeAll d es).1 es').2) := by
  induction es generalizing d with
  | nil => simp [executeAll]
  | cons e rest ih =>
    rw [List.cons_append, executeAll, executeAll]
    cases execute d e with
    | none => exact ih d
    | some d' =>
      simp only [ih]
      rw [Nat.add_right_comm]

theorem executeAll_le (d : Draft) (es : List Errand) : (executeAll d es).2 ≤ es.length := by
  induction es generalizing d with
  | nil => exact Nat.le_refl 0
  | cons e rest ih =>
    rw [executeAll, List.length_cons]
    cases execute d e with
    | none => exact Nat.le_succ_of_le (ih d)
    | some d' => exact Nat.succ_le_succ (ih d')

/-! ## Drafts that differ in the catalog only -/

/-- Two drafts are the same except that the catalog may have been made of one already. -/
def Same (d d' : Draft) : Prop :=
  d.withCatalog = d'.withCatalog

namespace Same

variable {d d' : Draft}

theorem page (h : Same d d') : d.page = d'.page := by
  have heq : d.withCatalog.page = d'.withCatalog.page := by rw [h]
  exact heq

theorem lookup (h : Same d d') (p : Place) : d.lookup p = d'.lookup p := by
  have heq : d.withCatalog.lookup p = d'.withCatalog.lookup p := by rw [h]
  exact heq

theorem execute (h : Same d d') (e : Errand) : execute d e = execute d' e := by
  have heq : Directive.execute d.withCatalog e = Directive.execute d'.withCatalog e := by rw [h]
  exact heq

theorem executeAll (h : Same d d') (es : List Errand) :
    Same (executeAll d es).1 (executeAll d' es).1 ∧ (executeAll d es).2 = (executeAll d' es).2 := by
  induction es with
  | nil => exact ⟨h, rfl⟩
  | cons e rest ih =>
    rw [Directive.executeAll, Directive.executeAll, h.execute e]
    cases Directive.execute d' e with
    | none => exact ih
    | some d₁ => exact ⟨rfl, rfl⟩

end Same

end RouteDocs.Directive
