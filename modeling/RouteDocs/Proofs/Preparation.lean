import RouteDocs.Document
import RouteDocs.Proofs.Directive.Step
import RouteDocs.Proofs.Draft
import RouteDocs.Proofs.EveryElement
import RouteDocs.Proofs.Heading.Page
import RouteDocs.Proofs.Page

/-!
# Preparing a page without anchors

Carrying out directives moves nodes about and styling gives them classes;
neither brings an anchor. So a document that is made of a page without anchors
starts with empty slots.

Results:
* `isAbsent_mergeList`, `keeps_clean_run`, `isAbsentAll_styleNodes`: what each part of the
  preparation keeps.
* `ofPage_ok_iff`: the documents that can be made.
* `untouched_ofPage`: a document made of a page without anchors has none.
* `empty_pageSlots`: where there are no anchors all slots are empty.
-/
namespace RouteDocs

namespace Anchor

mutual

/-- No element of a tree has an anchor. -/
def isAbsent : Node → Bool
  | .text _ => true
  | .element _ as cs => (ofAttributes? as).isNone && isAbsentAll cs

/-- No element of any of the trees has an anchor. -/
def isAbsentAll : List Node → Bool
  | [] => true
  | n :: rest => isAbsent n && isAbsentAll rest

end

theorem isAbsent_element {name : String} {as : Attributes} {cs : List Node} :
    isAbsent (.element name as cs) = true ↔ ofAttributes? as = none ∧ isAbsentAll cs = true := by
  rw [isAbsent, Bool.and_eq_true, Option.isNone_iff_eq_none]

theorem isAbsentAll_iff {ns : List Node} :
    isAbsentAll ns = true ↔ ∀ n ∈ ns, isAbsent n = true := by
  induction ns with
  | nil => exact iff_of_true rfl nofun
  | cons n rest ih => rw [isAbsentAll, Bool.and_eq_true, ih, List.forall_mem_cons]

theorem ofAttributes?_put_other (as : Attributes) {k : String} (hk : k ≠ key) (v : Value) :
    ofAttributes? (Entries.put as k v) = ofAttributes? as := by
  rw [ofAttributes?, Entries.get?_put, if_neg hk, ofAttributes?]

theorem isAbsent_withAttributes {n : Node} (h : isAbsent n = true) {as : Attributes}
    (has : ofAttributes? as = none) : isAbsent (n.withAttributes as) = true := by
  cases n with
  | text s => rfl
  | element name _ cs => exact isAbsent_element.2 ⟨has, (isAbsent_element.1 h).2⟩

theorem ofAttributes?_of_isAbsent {n : Node} (h : isAbsent n = true) :
    ofAttributes? n.attributes = none := by
  cases n with
  | text s => rfl
  | element name as cs => exact (isAbsent_element.1 h).1

mutual

theorem isAbsent_eq_every : ∀ n : Node,
    isAbsent n = n.every fun _ as => (ofAttributes? as).isNone
  | .text s => rfl
  | .element name as cs => by rw [isAbsent, Node.every, isAbsentAll_eq_everyAll cs]

theorem isAbsentAll_eq_everyAll : ∀ ns : List Node,
    isAbsentAll ns = Node.everyAll (fun _ as => (ofAttributes? as).isNone) ns
  | [] => rfl
  | n :: rest => by
    rw [isAbsentAll, Node.everyAll, isAbsent_eq_every n, isAbsentAll_eq_everyAll rest]

end

/-- A merge brings no anchor. -/
theorem isAbsent_mergeList {source dest : Node} (hs : isAbsent source = true)
    (hd : isAbsent dest = true) : isAbsent (source.mergeList dest) = true := by
  rw [isAbsent_eq_every] at hs hd ⊢
  exact DefinitionList.every_mergeList hs hd

/-- Styling brings no anchor. -/
theorem isAbsentAll_styleNodes (classes : Entries String String) (c : Option String)
    {ns : List Node} (h : isAbsentAll ns = true) :
    isAbsentAll (Styling.styleNodes classes c ns).1 = true := by
  rw [isAbsentAll_eq_everyAll] at h ⊢
  refine Styling.everyAll_styleNodes (fun name as v => ?_) classes c ns h
  rw [ofAttributes?_put_other as (by decide)]

/-! ## Slots -/

mutual

theorem isAbsent_of_mem_find {wanted : String → Bool} : ∀ n : Node, isAbsent n = true →
    ∀ m ∈ n.find wanted, isAbsent m = true
  | .text s, _, m, hm => by cases hm
  | .element name as cs, h, m, hm => by
    rw [Node.find] at hm
    split at hm
    · rwa [List.mem_singleton.1 hm]
    · exact isAbsent_of_mem_findAll cs (isAbsent_element.1 h).2 m hm

theorem isAbsent_of_mem_findAll {wanted : String → Bool} : ∀ ns : List Node,
    isAbsentAll ns = true → ∀ m ∈ Node.findAll wanted ns, isAbsent m = true
  | [], _, m, hm => by cases hm
  | n :: rest, h, m, hm => by
    rw [isAbsentAll, Bool.and_eq_true] at h
    rcases List.mem_append.1 hm with hm | hm
    · exact isAbsent_of_mem_find n h.1 m hm
    · exact isAbsent_of_mem_findAll rest h.2 m hm

end

theorem empty_slots {n : Node} (h : isAbsent n = true) (top : Bool) :
    Slot.Empty Slot.all (Heading.slots top n) := by
  intro s hs _
  obtain ⟨m, hm, rfl⟩ := List.mem_map.1 hs
  exact ofAttributes?_of_isAbsent (isAbsent_of_mem_find n h m (List.mem_filter.1 hm).1)

/-- Where there are no anchors all slots are empty. -/
theorem empty_pageSlots {n : Node} (h : isAbsent n = true) :
    Slot.Empty Slot.all (Heading.pageSlots n) := by
  cases n with
  | text s => exact nofun
  | element name as cs =>
    intro s hs hw
    rcases List.mem_append.1 hs with hs | hs
    · split at hs
      · exact empty_slots h false s hs hw
      · cases hs
    · obtain ⟨c, hc, hs⟩ := List.mem_flatMap.1 hs
      have hclean := isAbsentAll_iff.1 (isAbsent_element.1 h).2 c hc
      split at hs
      · exact empty_slots hclean true s hs hw
      · split at hs
        · exact empty_slots hclean false s hs hw
        · cases hs

end Anchor

namespace Styling

theorem length_styleNodes (classes : Entries String String) (c : Option String) (ns : List Node) :
    (styleNodes classes c ns).1.length = ns.length := by
  induction ns generalizing c with
  | nil => rfl
  | cons n rest ih =>
    rcases styleNodes_cons classes c n rest with hstyled | hstyled
    · rw [hstyled, List.length_cons, List.length_cons]
    · rw [hstyled, List.length_cons, List.length_cons, ih]

end Styling

/-! ## The page -/

open Anchor (isAbsent isAbsentAll isAbsentAll_iff)

/-- A page without anchors whose labels are in order. -/
structure Page.Clean (p : Page) : Prop where
  labelled : p.WellLabelled
  root : Anchor.ofAttributes? p.attributes = none
  blocks : ∀ b ∈ p.blocks ++ p.removed, isAbsent b.node = true

namespace Page.Clean

variable {p : Page}

theorem isAbsent_toNode (h : p.Clean) : isAbsent p.toNode = true := by
  refine Anchor.isAbsent_element.2 ⟨h.root, isAbsentAll_iff.2 fun n hn => ?_⟩
  obtain ⟨b, hb, rfl⟩ := List.mem_map.1 hn
  exact h.blocks b (List.mem_append_left _ hb)

theorem isAbsent_node? (h : p.Clean) {l : Nat} {n : Node} (hn : p.node? l = some n) :
    isAbsent n = true :=
  h.blocks _ ((Page.node?_eq_some_iff h.labelled).1 hn)

theorem ofElement {name : String} {as : Attributes} {cs : List Node}
    (h : isAbsent (.element name as cs) = true) : (Page.ofElement name as cs).Clean := by
  obtain ⟨has, hcs⟩ := Anchor.isAbsent_element.1 h
  refine ⟨Page.wellLabelled_ofElement name as cs, has, fun b hb => isAbsentAll_iff.1 hcs _ ?_⟩
  exact Page.node_mem_of_mem_label (by simpa [Page.ofElement] using hb)

theorem modify (h : p.Clean) (l : Nat) {f : Node → Node}
    (hf : ∀ n, isAbsent n = true → isAbsent (f n) = true) : (p.modify l f).Clean := by
  refine ⟨Page.wellLabelled_modify h.labelled l f, h.root, fun b hb => ?_⟩
  rw [Page.blocks_modify_append, Page.mem_modifyBlocks] at hb
  obtain ⟨c, hc, rfl⟩ := hb
  split
  · exact hf _ (h.blocks c hc)
  · exact h.blocks c hc

theorem insertAt (h : p.Clean) (position : Nat) {new : List Node}
    (hnew : ∀ n ∈ new, isAbsent n = true) : (p.insertAt position new).Clean := by
  refine ⟨Page.wellLabelled_insertAt h.labelled position new, h.root, fun b hb => ?_⟩
  rcases List.mem_append.1 ((Page.perm_insertAt p position new).mem_iff.1 hb) with hb | hb
  · exact hnew _ (Page.node_mem_of_mem_label hb)
  · exact h.blocks b hb

theorem keep (h : p.Clean) (test : Node → Bool) : (p.keep test).Clean :=
  ⟨Page.wellLabelled_keep h.labelled test, h.root,
    fun b hb => h.blocks b ((Page.perm_keep p test).mem_iff.1 hb)⟩

theorem renew (h : p.Clean) {ns : List Node} (hlength : ns.length = p.blocks.length)
    (hns : isAbsentAll ns = true) : ({ p with blocks := Page.renew p.blocks ns } : Page).Clean := by
  refine ⟨Page.wellLabelled_renew h.labelled hlength, h.root, fun b hb => ?_⟩
  rcases List.mem_append.1 hb with hb | hb
  · have hmem : b.node ∈ (Page.renew p.blocks ns).map (·.node) := List.mem_map_of_mem hb
    rw [Page.map_node_renew hlength] at hmem
    exact isAbsentAll_iff.1 hns _ hmem
  · exact h.blocks b (List.mem_append_right _ hb)

theorem mergeBlocks (h : p.Clean) (source dest : Nat) :
    (Directive.mergeBlocks p source dest).Clean := by
  unfold Directive.mergeBlocks
  split
  · rename_i n hn
    exact h.modify dest fun m hm => Anchor.isAbsent_mergeList (h.isAbsent_node? hn) hm
  · exact h

end Page.Clean

/-! ## The preparation -/

namespace Directive

theorem isAbsent_scaffold {kind : String} {withHeading : Bool} {n : Node}
    (h : n ∈ Draft.scaffold kind withHeading) : isAbsent n = true := by
  rcases List.mem_append.1 h with h | h
  · split at h
    · rw [List.mem_singleton.1 h]
      rfl
    · cases h
  · rw [List.mem_singleton.1 h]
    decide

theorem clean_ensureList {d : Draft} (h : d.page.Clean) (routeSection kind : String) :
    (d.ensureList routeSection kind).1.page.Clean := by
  rcases Draft.page_ensureList d routeSection kind with heq | ⟨position, withHeading, heq⟩
  · rwa [heq]
  · rw [heq]
    exact h.insertAt position fun n hn => isAbsent_scaffold hn

/-- Work on a page without anchors. -/
def CleanWork (w : Work) : Prop :=
  w.draft.page.Clean

theorem keeps_clean_carryOut (rules : DirectiveRules) (routeSection : Option String) (r : Request) :
    Keeps CleanWork (carryOut rules routeSection r) := by
  intro w h
  rcases finalWork_carryOut rules routeSection r w with ⟨notices, hf | hf⟩ |
    ⟨into, source, -, -, hf⟩
  · rw [hf]
    exact h
  · rw [hf]
    exact h
  · rw [hf]
    exact (clean_ensureList h into r.kind.label).mergeBlocks _ _

theorem clean_marked {w : Work} (h : CleanWork w) (l : Nat) : CleanWork (w.marked l) := by
  refine Page.Clean.modify h l fun n hn => Anchor.isAbsent_withAttributes hn ?_
  rw [Anchor.ofAttributes?_put_other _ (by decide)]
  exact Anchor.ofAttributes?_of_isAbsent hn

/-- A run brings no anchor, whether it ends or fails. -/
theorem keeps_clean_run (rules : DirectiveRules) : Keeps CleanWork (run rules) := by
  intro w h
  have hscan : Keeps CleanWork (scan rules none w.draft.page.blocks) :=
    keeps_scan (fun s r (_ : ∀ into, s = some into → True) => keeps_clean_carryOut rules s r)
      (fun b _ _ w hw => clean_marked hw b.label) (fun _ _ => trivial) (fun _ _ _ => trivial)
  rcases finalWork_run rules w with hrun | hrun
  · rw [hrun]
    exact hscan w h
  · rw [hrun]
    exact Page.Clean.keep (hscan w h) fun n => !isMarked n

end Directive

namespace Document

/-- A document of which nothing has been asked yet, on a page without anchors. -/
structure Untouched (d : Document) : Prop where
  clean : d.draft.page.Clean
  moduleId : d.madeModuleId = none
  routes : d.madeRoutes = none
  index : d.madeIndex = none

def styled (c : Config) (w : Directive.Work) : Directive.Work :=
  { w with draft := { w.draft with page :=
      (Styling.stylePage c.styling.listClasses none w.draft.page).1 } }

theorem clean_styled (c : Config) {w : Directive.Work} (h : Directive.CleanWork w) :
    Directive.CleanWork (styled c w) := by
  have hnodes : isAbsentAll w.draft.page.nodes = true :=
    (Anchor.isAbsent_element.1 (Page.Clean.isAbsent_toNode h)).2
  have hlength := Styling.length_styleNodes c.styling.listClasses none w.draft.page.nodes
  rw [Page.nodes, List.length_map] at hlength
  exact Page.Clean.renew h hlength (Anchor.isAbsentAll_styleNodes _ none hnodes)

/-- Style the lists of the page, up to the first that cannot be styled. -/
def styleStep (c : Config) : Directive.Step Unit := fun w =>
  match (Styling.stylePage c.styling.listClasses none w.draft.page).2 with
  | some f => .error f (styled c w)
  | none => .ok () (styled c w)

theorem keeps_clean_styleStep (c : Config) : Directive.Keeps Directive.CleanWork (styleStep c) := by
  intro w h
  rw [Directive.finalWork, styleStep]
  cases (Styling.stylePage c.styling.listClasses none w.draft.page).2 <;> exact clean_styled c h

section
variable [Html.Highlighter]

/-- The preparation carries out the directives first and styles the page then. -/
theorem prepare_eq (c : Config) :
    prepare c =
      if Html.HighlightStyle.isKnown c.rendering.highlightStyle then do
        let _ ← Directive.run c.directives
        if c.styling.enabled then styleStep c else return
      else throw .unknownStyle := by
  unfold prepare
  cases Html.HighlightStyle.isKnown c.rendering.highlightStyle with
  | false => rfl
  | true =>
    refine congrArg (Directive.run c.directives >>= ·) (funext fun _ => ?_)
    cases c.styling.enabled with
    | false => rfl
    | true =>
      funext w
      rw [if_pos rfl, if_pos rfl, styleStep, styled]
      simp only [bind, EStateM.bind, get_apply]
      generalize Styling.stylePage c.styling.listClasses none w.draft.page = result
      obtain ⟨page, fault⟩ := result
      cases fault <;> rfl

/-- The preparation brings no anchor, whether it ends or fails. -/
theorem keeps_clean_prepare (c : Config) : Directive.Keeps Directive.CleanWork (prepare c) := by
  rw [prepare_eq]
  split
  · refine Directive.keeps_bind (Directive.keeps_clean_run c.directives) fun _ => ?_
    split
    · exact keeps_clean_styleStep c
    · exact Directive.keeps_pure ()
  · exact fun _ h => h

/-- A document is made of a page exactly if its preparation ends well, and nothing has been made of
it then. -/
theorem ofPage_ok_iff {c : Config} {path : Option String} {seed : List String} {p : Page}
    {d : Document} :
    ofPage c path seed p = .ok d ↔ ∃ w, prepare c ⟨Draft.ofPage p, []⟩ = .ok () w ∧
      d = ⟨c, path, Identifiers.ofSeed seed c.fallbackPrefix, w.draft, w.log, none, none, none⟩ := by
  unfold ofPage
  rw [EStateM.run]
  cases prepare c ⟨Draft.ofPage p, []⟩ with
  | ok a w => simp [eq_comm]
  | error f w => simp

theorem ofPage_ok {c : Config} {path : Option String} {seed : List String} {p : Page}
    {d : Document} (h : ofPage c path seed p = .ok d) :
    ∃ m w, Directive.run c.directives ⟨Draft.ofPage p, []⟩ = .ok m w ∧
      (d.draft = w.draft ∨ d.draft = (styled c w).draft) := by
  obtain ⟨w, hok, rfl⟩ := ofPage_ok_iff.1 h
  rw [prepare_eq] at hok
  split at hok
  · obtain ⟨m, w₁, hrun, hstyle⟩ := bind_ok hok
    refine ⟨m, w₁, hrun, ?_⟩
    split at hstyle
    · rw [styleStep] at hstyle
      split at hstyle
      · cases hstyle
      · cases hstyle
        exact .inr rfl
    · cases hstyle
      exact .inl rfl
  · cases hok

theorem ids_ofPage {c : Config} {path : Option String} {seed : List String} {p : Page}
    {d : Document} (h : ofPage c path seed p = .ok d) :
    d.ids = Identifiers.ofSeed seed c.fallbackPrefix := by
  obtain ⟨w, -, rfl⟩ := ofPage_ok_iff.1 h
  rfl

theorem config_ofPage {c : Config} {path : Option String} {seed : List String} {p : Page}
    {d : Document} (h : ofPage c path seed p = .ok d) : d.config = c := by
  obtain ⟨w, -, rfl⟩ := ofPage_ok_iff.1 h
  rfl

/-- A document made of a page without anchors has none. -/
theorem untouched_ofPage {c : Config} {path : Option String} {seed : List String} {name : String}
    {as : Attributes} {cs : List Node} {d : Document}
    (habsent : isAbsent (.element name as cs) = true)
    (h : ofPage c path seed (Page.ofElement name as cs) = .ok d) : d.Untouched := by
  obtain ⟨w, hok, rfl⟩ := ofPage_ok_iff.1 h
  have hclean := keeps_clean_prepare c ⟨Draft.ofPage (Page.ofElement name as cs), []⟩
    (Page.Clean.ofElement habsent)
  rw [Directive.finalWork, hok] at hclean
  exact ⟨hclean, rfl, rfl, rfl⟩

end

end Document

end RouteDocs
