import RouteDocs.Proofs.Row.Errands

/-!
# Input and output requests in any order

Requests for input lists and requests for output lists do not get in each
other's way. Each kind reads and fills its own lists, and headings and lists
that are put in for one kind stand where they would stand without the other. So
however two rows of requests, one of each kind, are interleaved, each request
is resolved or skipped as it would be in any other order, and the page ends up
the same.

Results:
* `carryOutEach_lenient`: lenient requests do to a page what errands do to its row of nodes.
* `doneAll_interleaving`, `outcomes_interleaving`: interleaved errands of two kinds, on a row.
* `carryOutEach_interleaving`: every interleaving ends in the same tree, with the same outcome of
  each request.
-/
namespace RouteDocs

/-- Rows of two and an interleaving of them that keeps the order of each. -/
inductive Interleaving {α : Type} : List α → List α → List α → Prop
  | nil : Interleaving [] [] []
  | left {x : α} {xs ys zs : List α} : Interleaving xs ys zs → Interleaving (x :: xs) ys (x :: zs)
  | right {y : α} {xs ys zs : List α} : Interleaving xs ys zs → Interleaving xs (y :: ys) (y :: zs)

theorem Interleaving.mem {α : Type} {xs ys zs : List α} (h : Interleaving xs ys zs) {z : α}
    (hz : z ∈ zs) : z ∈ xs ∨ z ∈ ys := by
  induction h with
  | nil => cases hz
  | left _ ih =>
    rcases List.mem_cons.1 hz with rfl | hz
    · exact .inl List.mem_cons_self
    · exact (ih hz).imp_left (List.mem_cons_of_mem _)
  | right _ ih =>
    rcases List.mem_cons.1 hz with rfl | hz
    · exact .inr List.mem_cons_self
    · exact (ih hz).imp_right (List.mem_cons_of_mem _)

namespace Row

open Directive (Errand)

def doneAll (ns : List Node) (es : List Errand) : List Node :=
  es.foldl done ns

/-- The number of merges that each errand makes when they are done one after the other. -/
def outcomes (ns : List Node) : List Errand → List Nat
  | [] => []
  | e :: rest => (resolves ns e).toNat :: outcomes (done ns e) rest

def AllOf (kind : ListKind) (ns : List Node) (es : List Errand) : Prop :=
  ∀ e ∈ es, e.request.kind = kind ∧ InSection ns e

section
variable {kind kind' : ListKind} {ns : List Node} {e : Errand} {xs ys es : List Errand}

theorem AllOf.head (h : AllOf kind ns (e :: es)) : e.request.kind = kind ∧ InSection ns e :=
  h e List.mem_cons_self

theorem AllOf.tail (h : AllOf kind ns (e :: es)) : AllOf kind ns es :=
  fun e' he' => h e' (List.mem_cons_of_mem e he')

theorem AllOf.kind_ne {e' : Errand} (h : AllOf kind' ns (e' :: es)) (hne : kind ≠ kind')
    (he : e.request.kind = kind) : e.request.kind ≠ e'.request.kind := by
  obtain ⟨hkind, -⟩ := h.head
  rw [he, hkind]
  exact hne

theorem AllOf.done (h : AllOf kind ns es) (e : Errand) : AllOf kind (done ns e) es :=
  fun e' he' => ⟨(h e' he').1, (h e' he').2.done⟩

theorem doneAll_done (hne : kind ≠ kind') (he : e.request.kind = kind) (hs : InSection ns e)
    (hes : AllOf kind' ns es) : doneAll (done ns e) es = done (doneAll ns es) e := by
  induction es generalizing ns with
  | nil => rfl
  | cons e' rest ih =>
    have hs' := hes.head.2
    have hother := hes.kind_ne hne he
    show doneAll (done (done ns e) e') rest = done (doneAll (done ns e') rest) e
    rw [← done_comm hs hs' hother]
    exact ih hs.done (hes.tail.done e')

theorem outcomes_done (hne : kind ≠ kind') (he : e.request.kind = kind) (hs : InSection ns e)
    (hes : AllOf kind' ns es) : outcomes (done ns e) es = outcomes ns es := by
  induction es generalizing ns with
  | nil => rfl
  | cons e' rest ih =>
    have hs' := hes.head.2
    have hother := hes.kind_ne hne he
    rw [outcomes, outcomes, resolves_done hs hother, ← done_comm hs hs' hother,
      ih hs.done (hes.tail.done e')]

/-- Interleaved errands of two kinds do what those of the one kind and then those of the other
do. -/
theorem doneAll_interleaving (hne : kind ≠ kind') (h : Interleaving xs ys es)
    (hxs : AllOf kind ns xs) (hys : AllOf kind' ns ys) :
    doneAll ns es = doneAll (doneAll ns xs) ys := by
  induction h generalizing ns with
  | nil => rfl
  | left _ ih => exact ih (hxs.tail.done _) (hys.done _)
  | @right y xs ys _ _ ih =>
    obtain ⟨hkind, hs⟩ := hys.head
    show doneAll (done ns y) _ = doneAll (done (doneAll ns xs) y) ys
    rw [ih (hxs.done y) (hys.tail.done y), doneAll_done hne.symm hkind hs hxs]

/-- Interleaved errands of two kinds have the outcomes that they have without the other kind. -/
theorem outcomes_interleaving (hne : kind ≠ kind') (h : Interleaving xs ys es)
    (hxs : AllOf kind ns xs) (hys : AllOf kind' ns ys) :
    Interleaving (xs.zip (outcomes ns xs)) (ys.zip (outcomes ns ys)) (es.zip (outcomes ns es)) := by
  induction h generalizing ns with
  | nil => exact .nil
  | @left x xs ys _ _ ih =>
    obtain ⟨hkind, hs⟩ := hxs.head
    have hrest := ih (hxs.tail.done x) (hys.done x)
    rw [outcomes_done hne hkind hs hys] at hrest
    exact hrest.left
  | @right y xs ys _ _ ih =>
    obtain ⟨hkind, hs⟩ := hys.head
    have hrest := ih (hxs.done y) (hys.tail.done y)
    rw [outcomes_done hne.symm hkind hs hxs] at hrest
    exact hrest.right

end

end Row

namespace Directive

/-- Carry out requests, each in its own section; the number of merges of each. -/
def carryOutEach (rules : DirectiveRules) : List Errand → Step (List Nat)
  | [] => return []
  | e :: rest => do
    let m ← carryOut rules e.routeSection e.request
    let ms ← carryOutEach rules rest
    return m :: ms

def requests (kind : ListKind) (pairs : List (String × String)) : List Errand :=
  pairs.map fun (into, reference) => ⟨some into, ⟨kind, reference⟩⟩

section
variable {rules : DirectiveRules} {start : List Block} {w : Work} {es : List Errand}

theorem Grown.of_same {d d' : Draft} (h : Grown start d) (hsame : Same d' d) : Grown start d' := by
  have hpage := hsame.page
  refine ⟨hpage ▸ h.labelled, fun p => ?_, hpage ▸ h.kept, hpage ▸ h.added⟩
  rw [hsame.lookup, h.coherent, Draft.lookup_rebuild, Draft.lookup_rebuild, hpage]

theorem root_execute {d d' : Draft} {e : Errand} (he : execute d e = some d') :
    d'.page.name = d.page.name ∧ d'.page.attributes = d.page.attributes := by
  have hroot := root_executeAll d [e]
  simp only [executeAll, he] at hroot
  exact hroot

/-- Lenient requests do to a page what errands do to its row of nodes. -/
theorem carryOutEach_lenient (hlenient : rules.strict = false) (h : Grown start w.draft)
    (hs : ∀ e ∈ es, e.StandsIn start) :
    ∃ w', carryOutEach rules es w = .ok (Row.outcomes w.draft.page.nodes es) w' ∧
      w'.draft.page.toNode = .element w.draft.page.name w.draft.page.attributes
        (Row.doneAll w.draft.page.nodes es) := by
  induction es generalizing w with
  | nil => exact ⟨w, rfl, rfl⟩
  | cons e rest ih =>
    have hrest := fun e' he' => hs e' (List.mem_cons_of_mem e he')
    obtain ⟨m, w₁, hfirst⟩ := carryOut_lenient hlenient e.routeSection e.request w
    -- what the first request leaves, whether it is executed or skipped
    have hstep : Grown start w₁.draft ∧ m = (Row.resolves w.draft.page.nodes e).toNat ∧
        w₁.draft.page.nodes = Row.done w.draft.page.nodes e ∧
        w₁.draft.page.name = w.draft.page.name ∧
        w₁.draft.page.attributes = w.draft.page.attributes := by
      rcases carryOut_ok hfirst with ⟨hexecute, rfl⟩ | ⟨hexecute, hsame, rfl, -⟩
      · have hstands := hs e List.mem_cons_self
        obtain ⟨hresolves, hnodes⟩ := Row.nodes_execute h hstands hexecute
        exact ⟨grown_execute h hstands hexecute, by rw [hresolves]; rfl, hnodes,
          root_execute hexecute⟩
      · obtain ⟨hresolves, hnodes⟩ := Row.nodes_execute_none h hexecute
        refine ⟨h.of_same hsame, by rw [hresolves]; rfl, ?_⟩
        rw [hsame.page]
        exact ⟨hnodes.symm, rfl, rfl⟩
    obtain ⟨hgrown, rfl, hnodes, hname, hattributes⟩ := hstep
    obtain ⟨w', hrun, htree⟩ := ih hgrown hrest
    rw [hnodes, hname, hattributes] at htree
    rw [hnodes] at hrun
    refine ⟨w', ?_, htree⟩
    simp only [carryOutEach, bind, EStateM.bind, hfirst, hrun]
    rfl

end

theorem allOf_requests {kind : ListKind} {cs : List Node} {pairs : List (String × String)}
    (h : ∀ s ∈ pairs, Row.HasSection s.1 cs) : Row.AllOf kind cs (requests kind pairs) := by
  intro e he
  obtain ⟨s, hs, rfl⟩ := List.mem_map.1 he
  exact ⟨rfl, s.1, rfl, h s hs⟩

theorem standsIn_of_inSection {cs : List Node} {e : Errand} (h : Row.InSection cs e) (name : String)
    (as : Attributes) : e.StandsIn (Page.ofElement name as cs).blocks := by
  intro into hinto
  obtain ⟨into', hinto', n, hn, h3, hflatten⟩ := h
  cases hinto.symm.trans hinto'
  have hnodes : (Page.ofElement name as cs).nodes = cs := Page.map_node_label 0 cs
  rw [← hnodes] at hn
  obtain ⟨b, hb, rfl⟩ := List.mem_map.1 hn
  exact ⟨b, hb, h3, hflatten⟩

/-- Lenient input and output requests are independent. However two rows of them are interleaved,
each request has one outcome and the page ends in one tree. -/
theorem carryOutEach_interleaving {rules : DirectiveRules} (hlenient : rules.strict = false)
    (name : String) (as : Attributes) {cs : List Node} (log : List Notice)
    {ins outs : List (String × String)} (hins : ∀ s ∈ ins, Row.HasSection s.1 cs)
    (houts : ∀ s ∈ outs, Row.HasSection s.1 cs) :
    ∃ (insMerges outsMerges : List Nat) (tree : Node), ∀ es,
      Interleaving (requests .input ins) (requests .output outs) es →
        ∃ ms w, carryOutEach rules es ⟨Draft.ofPage (Page.ofElement name as cs), log⟩ = .ok ms w ∧
          w.draft.page.toNode = tree ∧
          Interleaving ((requests .input ins).zip insMerges)
            ((requests .output outs).zip outsMerges) (es.zip ms) := by
  have hnodes : (Page.ofElement name as cs).nodes = cs := Page.map_node_label 0 cs
  have hxs : Row.AllOf .input cs (requests .input ins) := allOf_requests hins
  have hys : Row.AllOf .output cs (requests .output outs) := allOf_requests houts
  have hne : ListKind.input ≠ ListKind.output := nofun
  refine ⟨Row.outcomes cs (requests .input ins), Row.outcomes cs (requests .output outs),
    .element name as (Row.doneAll (Row.doneAll cs (requests .input ins)) (requests .output outs)),
    fun es hes => ?_⟩
  have hstart := grown_ofPage (Page.wellLabelled_ofElement name as cs)
  have hstands : ∀ e ∈ es, e.StandsIn (Page.ofElement name as cs).blocks := by
    intro e he
    rcases hes.mem he with he | he
    · exact standsIn_of_inSection (hxs e he).2 name as
    · exact standsIn_of_inSection (hys e he).2 name as
  obtain ⟨w, hrun, htree⟩ :
      ∃ w, carryOutEach rules es ⟨Draft.ofPage (Page.ofElement name as cs), log⟩ =
          .ok (Row.outcomes cs es) w ∧
        w.draft.page.toNode = .element name as (Row.doneAll cs es) := by
    have h := carryOutEach_lenient (w := ⟨Draft.ofPage (Page.ofElement name as cs), log⟩)
      hlenient hstart hstands
    have hpage : (Draft.ofPage (Page.ofElement name as cs)).page.nodes = cs := hnodes
    simp only [hpage] at h
    exact h
  refine ⟨_, w, hrun, ?_, Row.outcomes_interleaving hne hes hxs hys⟩
  rw [htree, Row.doneAll_interleaving hne hes hxs hys]

/-- One section takes in both lists of another, and one request finds no list. -/
theorem carryOutEach_interleaving_of_two_sections :
    let cs : List Node :=
      [.element "head3" [] [.text "GET /a"], .element "head4" [] [.text "Output"],
        .element "over-text" [] [.element "item-text" [] [.text "id"]],
        .element "head4" [] [.text "Input"],
        .element "over-text" [] [.element "item-text" [] [.text "q"]],
        .element "head3" [] [.text "GET /b"]]
    let ins := [("GET /b", "GET /a"), ("GET /a", "GET /c")]
    let outs := [("GET /b", "GET /a")]
    (∀ s ∈ ins, Row.HasSection s.1 cs) ∧ (∀ s ∈ outs, Row.HasSection s.1 cs) ∧
    ∃ (insMerges outsMerges : List Nat) (tree : Node), ∀ es,
      Interleaving (requests .input ins) (requests .output outs) es →
        ∃ ms w, carryOutEach ⟨"docviewer", false⟩ es
            ⟨Draft.ofPage (Page.ofElement "Document" [] cs), []⟩ = .ok ms w ∧
          w.draft.page.toNode = tree ∧
          Interleaving ((requests .input ins).zip insMerges)
            ((requests .output outs).zip outsMerges) (es.zip ms) := by
  intro cs ins outs
  have hins : ∀ s ∈ ins, Row.HasSection s.1 cs := by decide
  have houts : ∀ s ∈ outs, Row.HasSection s.1 cs := by decide
  exact ⟨hins, houts, carryOutEach_interleaving rfl "Document" [] [] hins houts⟩

end Directive
end RouteDocs
