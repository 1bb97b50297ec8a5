import RouteDocs.Node.Nested
import RouteDocs.Proofs.Directive.Modes
import RouteDocs.Proofs.Directive.Nested

/-!
# Preparing what is prepared

A document has no directive left at its top level, nothing on it is marked, and
each list has the class it is to have. So to prepare its tree once more merges
nothing, notes nothing and leaves the tree as it is.

Results:
* `styleNode_again`, `styleNodes_again`: what has been styled is styled.
* `run_of_nothing`: a run that finds no directive and no mark leaves the page.
* `prepare_ok_iff`: when a preparation ends well, and with what.
* `ofPage_again`: a document made of a document's tree has that tree.
-/
namespace RouteDocs

/-! ## Styling -/

namespace Styling

theorem putClass?_again {as as' : Attributes} {c : String} (h : putClass? as c = some as') :
    putClass? as' c = some as' := by
  obtain ⟨html, rfl⟩ := putClass?_eq_some h
  rw [putClass?, Entries.get?_put, if_pos rfl]
  simp only [Entries.put_put]

theorem styleNode_cases (classes : Entries String String) (c : Option String) (n : Node) :
    (styleNode classes c n).1 = n ∨
      (n.isA .definitionList = true ∧ (styleNode classes c n).1.isA .definitionList = true) := by
  cases n with
  | text s => exact .inl rfl
  | element name as cs =>
    refine (styleNode_element classes c name as cs).imp_right ?_
    rintro ⟨given, as', hkind, -, hstyled⟩
    rw [hstyled]
    exact ⟨Node.isA_iff_kind?.2 hkind, Node.isA_iff_kind?.2 hkind⟩

theorem classAfter_styleNode (classes : Entries String String) (c c' : Option String) (n : Node) :
    classAfter classes c' (styleNode classes c n).1 = classAfter classes c' n := by
  rcases styleNode_cases classes c n with h | ⟨hlist, hlist'⟩
  · rw [h]
  · rw [classAfter, Node.isA_iff_kind?.1 hlist', classAfter, Node.isA_iff_kind?.1 hlist]

mutual

/-- A node that has been styled is styled. -/
theorem styleNode_again (classes : Entries String String) (c : Option String) : ∀ n n' : Node,
    styleNode classes c n = (n', none) → styleNode classes c n' = (n', none)
  | .text s, n', h => by
    cases h
    rfl
  | .element name as cs, n', h => by
    rw [styleNode] at h
    split at h
    · rename_i given hkind hgiven
      split at h
      · cases h
      · rename_i as' hput
        obtain ⟨hnode, hfault⟩ := Prod.mk.inj h
        subst hnode
        have hcs := styleNodes_again classes c cs _ (Prod.ext rfl hfault)
        rw [styleNode]
        simp only [hkind, hgiven, putClass?_again hput, hcs]
    · rename_i hother
      cases h
      rw [styleNode]
      split
      · rename_i given hkind hgiven
        exact absurd hgiven (hother given hkind)
      · rfl

/-- Nodes that have been styled are styled. -/
theorem styleNodes_again (classes : Entries String String) (c : Option String) :
    ∀ ns ns' : List Node, styleNodes classes c ns = (ns', none) →
      styleNodes classes c ns' = (ns', none)
  | [], ns', h => by
    cases h
    rfl
  | n :: rest, ns', h => by
    rw [styleNodes] at h
    split at h
    · cases h
    · rename_i n' hn
      obtain ⟨hnodes, hfault⟩ := Prod.mk.inj h
      subst hnodes
      have hafter := classAfter_styleNode classes c c n
      rw [hn] at hafter
      have hrest := styleNodes_again classes (classAfter classes c n) rest _ (Prod.ext rfl hfault)
      rw [styleNodes]
      simp only [styleNode_again classes c n n' hn, hafter, hrest]

end

end Styling

/-! ## A run that finds nothing to do -/

namespace Directive

variable {rules : DirectiveRules}

theorem scan_of_nothing {bs : List Block} (h : ∀ b ∈ bs, isFor rules.target b.node = false)
    (routeSection : Option String) (w : Work) : scan rules routeSection bs w = .ok 0 w := by
  induction bs generalizing routeSection with
  | nil => rfl
  | cons b rest ih =>
    obtain ⟨hb, hrest⟩ := List.forall_mem_cons.1 h
    rw [scan_other hb]
    exact ih hrest _

/-- A run that finds no directive and no mark leaves the page. -/
theorem run_of_nothing {w : Work} (hfor : ∀ b ∈ w.draft.page.blocks, isFor rules.target b.node = false)
    (hmarked : ∀ b ∈ w.draft.page.blocks, isMarked b.node = false) : run rules w = .ok 0 w := by
  have hkeep : (w.draft.page.keep fun n => !isMarked n) = w.draft.page := by
    have hall : (w.draft.page.blocks.filter fun b => !isMarked b.node) = w.draft.page.blocks :=
      List.filter_eq_self.2 fun b hb => by rw [hmarked b hb]; rfl
    have hnone : (w.draft.page.blocks.filter fun b => !!isMarked b.node) = [] :=
      List.filter_eq_nil_iff.2 fun b hb => by rw [hmarked b hb]; decide
    rw [Page.keep, hall, hnone, List.append_nil]
  rw [run_apply, scan_of_nothing hfor]
  simp only [Work.excised, hkeep]

theorem isMarked_styleNode (classes : Entries String String) (c : Option String) (n : Node) :
    isMarked (Styling.styleNode classes c n).1 = isMarked n := by
  cases n with
  | text s => rfl
  | element name as cs =>
    rcases Styling.styleNode_element classes c name as cs with
      hsame | ⟨given, as', -, hput, hstyled⟩
    · rw [hsame]
    · obtain ⟨html, rfl⟩ := Styling.putClass?_eq_some hput
      have hkey : Styling.htmlAttributesKey ≠ deleteKey := by decide
      rw [hstyled]
      simp only [isMarked, Node.attribute?, Node.attributes, Entries.get?_put, hkey, if_false]

end Directive

/-! ## Documents -/

namespace Document

open Directive (isFor isMarked)

/-- The page can be styled, or is not to be. -/
def CanBeStyled (c : Config) (p : Page) : Prop :=
  c.styling.enabled = true → (Styling.styleNodes c.styling.listClasses none p.nodes).2 = none

def finished (c : Config) (w : Directive.Work) : Directive.Work :=
  if c.styling.enabled then styled c w else w

section
variable {c : Config} {p : Page} {w : Directive.Work} {m : Nat}

theorem styleStep_ok_iff {w' : Directive.Work} :
    styleStep c w = .ok () w' ↔
      (Styling.styleNodes c.styling.listClasses none w.draft.page.nodes).2 = none ∧
        w' = styled c w := by
  rw [styleStep]
  have hfault : (Styling.stylePage c.styling.listClasses none w.draft.page).2 =
      (Styling.styleNodes c.styling.listClasses none w.draft.page.nodes).2 := rfl
  rw [hfault]
  cases (Styling.styleNodes c.styling.listClasses none w.draft.page.nodes).2 with
  | none => simp [eq_comm]
  | some f => simp

/-- A preparation ends well if the style is known, the directives can be carried out, and every
list that is to have a class can have one. -/
theorem prepare_ok_iff [Html.Highlighter] {w₀ w' : Directive.Work} :
    prepare c w₀ = .ok () w' ↔ Html.HighlightStyle.isKnown c.rendering.highlightStyle = true ∧
      ∃ m w, Directive.run c.directives w₀ = .ok m w ∧ CanBeStyled c w.draft.page ∧
        w' = finished c w := by
  rw [prepare_eq]
  constructor
  · intro h
    split at h
    · rename_i hknown
      obtain ⟨m, w, hrun, hstyle⟩ := bind_ok h
      refine ⟨hknown, m, w, hrun, ?_⟩
      split at hstyle
      · rename_i henabled
        obtain ⟨hfault, hw⟩ := styleStep_ok_iff.1 hstyle
        exact ⟨fun _ => hfault, hw.trans (if_pos henabled).symm⟩
      · rename_i henabled
        cases hstyle
        exact ⟨fun h => absurd h henabled, (if_neg henabled).symm⟩
    · cases h
  · rintro ⟨hknown, m, w, hrun, hstyled, rfl⟩
    rw [if_pos hknown, bind_of_ok hrun, finished]
    split
    · rename_i henabled
      exact styleStep_ok_iff.2 ⟨hstyled henabled, rfl⟩
    · rfl

theorem toNode_finished (c : Config) (w : Directive.Work) :
    (finished c w).draft.page.toNode = .element w.draft.page.name w.draft.page.attributes
      (if c.styling.enabled then (Styling.styleNodes c.styling.listClasses none w.draft.page.nodes).1
        else w.draft.page.nodes) := by
  rw [finished]
  split
  · exact toNode_styled c w
  · rfl

theorem finished_again (hstyled : CanBeStyled c w.draft.page) {again : Directive.Work}
    (h : again.draft.page.toNode = (finished c w).draft.page.toNode) :
    CanBeStyled c again.draft.page ∧
      (finished c again).draft.page.toNode = (finished c w).draft.page.toNode := by
  rw [toNode_finished, toNode_finished]
  rw [toNode_finished, Page.toNode, Node.element.injEq] at h
  obtain ⟨hname, has, hnodes⟩ := h
  rw [CanBeStyled, hname, has, hnodes]
  cases henabled : c.styling.enabled with
  | false => simp
  | true =>
    have hfault := hstyled henabled
    have hagain := Styling.styleNodes_again c.styling.listClasses none w.draft.page.nodes _
      (Prod.ext rfl hfault)
    simp only [if_true, hagain]
    exact ⟨fun _ => trivial, trivial⟩

theorem nothing_finished {rules : DirectiveRules} {w₀ : Directive.Work} {name : String}
    {as : Attributes} {cs : List Node} (hw₀ : w₀ = ⟨Draft.ofPage (Page.ofElement name as cs), []⟩)
    (hrun : Directive.run rules w₀ = .ok m w) :
    ∀ n ∈ (finished c w).draft.page.toNode.children,
      isFor rules.target n = false ∧ isMarked n = false := by
  subst hw₀
  have hnodes : ∀ n ∈ w.draft.page.nodes, isFor rules.target n = false ∧ isMarked n = false :=
    fun n hn => (Directive.unmarked_run hrun n hn).symm
  rw [toNode_finished]
  show ∀ n ∈ (if c.styling.enabled then _ else _), _
  split
  · refine Styling.forall_styleNodes (fun c' n hn => ?_) hnodes none
    exact ⟨(Directive.isFor_styleNode _ _ c' n).trans hn.1,
      (Directive.isMarked_styleNode _ c' n).trans hn.2⟩
  · exact hnodes

end

/-- A document made of a document's tree, with the same configuration, has that tree. Nothing is
merged and nothing is noted on the way. -/
theorem ofPage_again [Html.Highlighter] {c : Config} {path : Option String} {seed : List String}
    {name : String} {as : Attributes} {cs : List Node} {d : Document}
    (h : ofPage c path seed (Page.ofElement name as cs) = .ok d) :
    ∃ p, Page.ofNode? d.tree = some p ∧
      Directive.run c.directives ⟨Draft.ofPage p, []⟩ = .ok 0 ⟨Draft.ofPage p, []⟩ ∧
      ∀ path' seed', ∃ d', ofPage c path' seed' p = .ok d' ∧ d'.tree = d.tree ∧ d'.log = [] := by
  obtain ⟨w', hprepare, rfl⟩ := ofPage_ok_iff.1 h
  obtain ⟨hknown, m, w, hrun, hstyled, rfl⟩ := prepare_ok_iff.1 hprepare
  have hnothing := nothing_finished (c := c) rfl hrun
  have htree : (⟨c, path, Identifiers.ofSeed seed c.fallbackPrefix, (finished c w).draft,
    (finished c w).log, none, none, none⟩ : Document).tree = (finished c w).draft.page.toNode := rfl
  rw [htree]
  rw [toNode_finished] at hnothing
  rw [toNode_finished]
  generalize hns : (if c.styling.enabled then
    (Styling.styleNodes c.styling.listClasses none w.draft.page.nodes).1
      else w.draft.page.nodes) = ns at hnothing ⊢
  have hpage : (Page.ofElement w.draft.page.name w.draft.page.attributes ns).toNode =
      (finished c w).draft.page.toNode := by
    rw [Page.toNode_ofElement, toNode_finished, hns]
  have hblocks : ∀ b ∈ (Page.ofElement w.draft.page.name w.draft.page.attributes ns).blocks,
      b.node ∈ ns := fun b hb => Page.node_mem_of_mem_label hb
  let start : Directive.Work :=
    ⟨Draft.ofPage (Page.ofElement w.draft.page.name w.draft.page.attributes ns), []⟩
  have hagain : Directive.run c.directives start = .ok 0 start :=
    Directive.run_of_nothing (fun b hb => (hnothing _ (hblocks b hb)).1)
      fun b hb => (hnothing _ (hblocks b hb)).2
  have hstart : start.draft.page.toNode = (finished c w).draft.page.toNode := hpage
  obtain ⟨hstyled', hsame⟩ := finished_again hstyled hstart
  refine ⟨_, rfl, hagain, fun path' seed' => ?_⟩
  refine ⟨_, ofPage_ok_iff.2 ⟨_, prepare_ok_iff.2 ⟨hknown, 0, _, hagain, hstyled', rfl⟩, rfl⟩, ?_, ?_⟩
  · exact hsame.trans (hpage.symm.trans (Page.toNode_ofElement _ _ _))
  · show (finished c start).log = []
    rw [finished]
    split <;> rfl

end Document
end RouteDocs
