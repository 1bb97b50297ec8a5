import RouteDocs.Proofs.Directive.Blocks
import RouteDocs.Proofs.Directive.Errand
import RouteDocs.Proofs.Draft

/-!
# Marks

A mark on a block makes no difference to an errand: the catalog does not see it,
the search for a missing list does not, and a list that takes in another takes
in the same whether it or the other is marked. So a mark that is made between
errands can as well be made after them.

Results:
* `ensureList_marked`, `mergeBlocks_marked`: a mark makes no difference to the parts of an errand.
* `execute_marked`, `executeAll_marked`: nor to an errand, nor to a row of errands.
* `node?_markAll`: marks leave the content of other blocks.
-/
namespace RouteDocs.Directive

def marked (d : Draft) (l : Nat) : Draft :=
  { d with page := d.page.modify l mark }

def markAll (d : Draft) (ls : List Nat) : Draft :=
  ls.foldl marked d

theorem kind?_mark (n : Node) : (mark n).kind? = n.kind? := by
  cases n <;> rfl

theorem flatten_mark (n : Node) : (mark n).flatten = n.flatten := by
  cases n <;> rfl

theorem mergeList_mark (source dest : Node) :
    (mark source).mergeList dest = source.mergeList dest ∧
      source.mergeList (mark dest) = mark (source.mergeList dest) := by
  cases source <;> cases dest <;> exact ⟨rfl, rfl⟩

/-! ## What does not see a mark -/

theorem catalog_marked (d : Draft) (l : Nat) : (marked d l).catalog = d.catalog := by
  unfold Draft.catalog
  cases hmade : d.made with
  | some c =>
    have hmade' : (marked d l).made = some c := hmade
    rw [hmade']
    rfl
  | none =>
    have hmade' : (marked d l).made = none := hmade
    rw [hmade']
    exact Catalog.ofPage_congr
      (Catalog.placed_modifyBlocks (fun b _ _ => (alike_mark b.node).role) Place.start)

theorem lookup_marked (d : Draft) (l : Nat) (p : Place) : (marked d l).lookup p = d.lookup p := by
  rw [Draft.lookup, catalog_marked, Draft.lookup]

theorem withCatalog_marked (d : Draft) (l : Nat) :
    (marked d l).withCatalog = marked d.withCatalog l := by
  rw [Draft.withCatalog, catalog_marked]
  rfl

theorem locate_modifyBlocks_mark (routeSection kind : String) (passed : Draft.Passed)
    (position l : Nat) (bs : List Block) :
    Draft.locate routeSection kind passed position (Page.modifyBlocks l mark bs) =
      Draft.locate routeSection kind passed position bs := by
  induction bs generalizing passed position with
  | nil => rfl
  | cons b rest ih =>
    have hrest : Page.modifyBlocks l mark (b :: rest) =
        (if b.label = l then { b with node := mark b.node } else b) ::
          Page.modifyBlocks l mark rest := rfl
    obtain ⟨c, hc, hlabel, halike, hflatten⟩ : ∃ c : Block,
        (if b.label = l then { b with node := mark b.node } else b) = c ∧ c.label = b.label ∧
          c.node.kind? = b.node.kind? ∧ c.node.flatten = b.node.flatten := by
      refine ⟨_, rfl, ?_⟩
      split
      · exact ⟨rfl, kind?_mark b.node, flatten_mark b.node⟩
      · exact ⟨rfl, rfl, rfl⟩
    have hisA : ∀ k, c.node.isA k = b.node.isA k := fun k => by rw [Node.isA, halike, Node.isA]
    have hend : c.node.endsSection = b.node.endsSection := by
      rw [Node.endsSection, halike, Node.endsSection]
    rw [hrest, hc]
    cases passed with
    | nothing => rw [Draft.locate, Draft.locate, hisA, hflatten, ih, ih]
    | sectionHeading => rw [Draft.locate, Draft.locate, hend, hisA, hflatten, ih, ih]
    | listHeading => rw [Draft.locate, Draft.locate, hend, hisA, hisA, hlabel, ih]

theorem ensureList_marked {d : Draft} {l : Nat} (hl : l < d.page.nextLabel)
    (routeSection kind : String) :
    (marked d l).ensureList routeSection kind =
      (marked (d.ensureList routeSection kind).1 l, (d.ensureList routeSection kind).2) := by
  unfold Draft.ensureList
  simp only [withCatalog_marked, lookup_marked]
  cases d.withCatalog.lookup ⟨some routeSection, some kind⟩ with
  | some k => rfl
  | none =>
    have hlocate : Draft.locate routeSection kind .nothing 0 (marked d.withCatalog l).page.blocks =
        Draft.locate routeSection kind .nothing 0 d.withCatalog.page.blocks :=
      locate_modifyBlocks_mark ..
    simp only [hlocate]
    cases Draft.locate routeSection kind .nothing 0 d.withCatalog.page.blocks with
    | present k => rfl
    | missing position withHeading =>
      have hpage := Page.insertAt_modify hl mark position (Draft.scaffold kind withHeading)
      simp only [Draft.register, marked, Draft.withCatalog] at hpage ⊢
      rw [hpage]
      rfl

theorem mergeBlocks_marked (p : Page) (l source dest : Nat) :
    mergeBlocks (p.modify l mark) source dest = (mergeBlocks p source dest).modify l mark := by
  have hcomm : ∀ n : Node, (p.modify l mark).modify dest n.mergeList =
      (p.modify dest n.mergeList).modify l mark := fun n =>
    Page.modify_comm p l dest fun m => (mergeList_mark n m).2.symm
  unfold mergeBlocks
  rw [Page.node?_modify]
  cases h : p.node? source with
  | none => simp
  | some n =>
    have hmark : (mark n).mergeList = n.mergeList := funext fun m => (mergeList_mark n m).1
    by_cases hs : source = l
    · simp only [if_pos hs, Option.map_some, hmark, hcomm]
    · simp only [if_neg hs, hcomm]

/-- A mark makes no difference to an errand. -/
theorem execute_marked {d : Draft} {l : Nat} (hl : l < d.page.nextLabel) (e : Errand) :
    execute (marked d l) e = (execute d e).map (marked · l) := by
  unfold execute
  cases e.routeSection with
  | none => rfl
  | some into =>
    simp only [Option.bind_eq_bind, Option.bind_some, lookup_marked, ensureList_marked hl]
    cases d.lookup ⟨some e.request.reference, some e.request.kind.label⟩ with
    | none => rfl
    | some source =>
      simp only [Option.bind_some, Option.pure_def, Option.map_some, marked]
      rw [mergeBlocks_marked]

/-! ## A row of errands -/

theorem nextLabel_mergeBlocks (p : Page) (source dest : Nat) :
    (mergeBlocks p source dest).nextLabel = p.nextLabel := by
  rcases mergeBlocks_cases p source dest with heq | ⟨n, -, heq⟩
  · rw [heq]
  · rw [heq]
    rfl

theorem nextLabel_execute {d d' : Draft} {e : Errand} (h : execute d e = some d') :
    d.page.nextLabel ≤ d'.page.nextLabel := by
  obtain ⟨into, source, -, -, rfl⟩ := execute_eq_some_iff.1 h
  dsimp only
  rw [nextLabel_mergeBlocks]
  rcases Draft.page_ensureList d into e.request.kind.label with heq | ⟨position, withHeading, heq⟩
  · exact Nat.le_of_eq (congrArg Page.nextLabel heq.symm)
  · rw [heq]
    exact Nat.le_add_right _ _

theorem nextLabel_executeAll (d : Draft) (es : List Errand) :
    d.page.nextLabel ≤ (executeAll d es).1.page.nextLabel := by
  induction es generalizing d with
  | nil => exact Nat.le_refl _
  | cons e rest ih =>
    rw [executeAll]
    cases h : execute d e with
    | none => exact ih d
    | some d' => exact Nat.le_trans (nextLabel_execute h) (ih d')

theorem executeAll_marked {d : Draft} {l : Nat} (hl : l < d.page.nextLabel) (es : List Errand) :
    executeAll (marked d l) es = (marked (executeAll d es).1 l, (executeAll d es).2) := by
  induction es generalizing d with
  | nil => rfl
  | cons e rest ih =>
    rw [executeAll, executeAll, execute_marked hl]
    cases h : execute d e with
    | none => exact ih hl
    | some d' =>
      have hl' : l < d'.page.nextLabel := Nat.lt_of_lt_of_le hl (nextLabel_execute h)
      simp only [Option.map_some, ih hl']

theorem Same.marked {d d' : Draft} (h : Same d d') (l : Nat) : Same (marked d l) (marked d' l) := by
  rw [Same, withCatalog_marked, withCatalog_marked, h]

theorem Same.markAll {d d' : Draft} (h : Same d d') (ls : List Nat) :
    Same (markAll d ls) (markAll d' ls) := by
  induction ls generalizing d d' with
  | nil => exact h
  | cons l ls ih => exact ih (h.marked l)

theorem node?_markAll (d : Draft) {ls : List Nat} {l : Nat} (hl : l ∉ ls) :
    (markAll d ls).page.node? l = d.page.node? l := by
  induction ls generalizing d with
  | nil => rfl
  | cons k ls ih =>
    rw [List.mem_cons, not_or] at hl
    rw [markAll, List.foldl_cons, ← markAll, ih _ hl.2, marked, Page.node?_modify, if_neg hl.1]

end RouteDocs.Directive
