import RouteDocs.Html.PlainHighlighter
import RouteDocs.Proofs.Directive.Grown
import RouteDocs.Proofs.Preparation

/-!
# Directives below the top level

A run walks the top level of a page and takes off every directive it finds
there, with all that is in it. A directive that stands within another node is
left there, and a merge may even copy it to another section. But none comes from
nowhere: where no other node of the page holds a directive, the document made of
the page holds none at any depth.

Results:
* `isFor_styleNode`: styling makes no directive and unmakes none.
* `holdsNoOther_mergeList`: a merge copies directives and makes none.
* `directives_of_run`, `directives_of_ofPage`: no directive is left at the top level, and one deeper
  down comes from one below the top level of the page.
* `nested_directive_remains`: a directive below the top level can be left.
-/
namespace RouteDocs

namespace Directive

mutual

/-- A tree holds a directive of a target, at any depth. -/
def holds (target : String) : Node → Bool
  | .text _ => false
  | .element name as cs => isFor target (.element name as cs) || holdsAny target cs

def holdsAny (target : String) : List Node → Bool
  | [] => false
  | n :: rest => holds target n || holdsAny target rest

end

def other (target name : String) (as : Attributes) : Bool :=
  !isFor target (.element name as [])

mutual

theorem holds_eq_not_every (target : String) : ∀ n : Node,
    holds target n = !n.every (other target)
  | .text s => rfl
  | .element name as cs => by
    have hother : isFor target (.element name as cs) = !other target name as := by
      rw [other, Bool.not_not]
      rfl
    rw [holds, Node.every, Bool.not_and, holdsAny_eq_not_everyAll target cs, hother]

theorem holdsAny_eq_not_everyAll (target : String) : ∀ ns : List Node,
    holdsAny target ns = !Node.everyAll (other target) ns
  | [] => rfl
  | n :: rest => by
    rw [holdsAny, Node.everyAll, Bool.not_and, holds_eq_not_every target n,
      holdsAny_eq_not_everyAll target rest]

end

theorem holdsAny_iff {target : String} {ns : List Node} :
    holdsAny target ns = true ↔ ∃ n ∈ ns, holds target n = true := by
  induction ns with
  | nil => simp [holdsAny]
  | cons n rest ih => rw [holdsAny, Bool.or_eq_true, ih, List.exists_mem_cons_iff]

theorem every_other_iff {target : String} {n : Node} :
    n.every (other target) = true ↔ holds target n = false := by
  rw [holds_eq_not_every, Bool.not_eq_false']

/-! ## Styling -/

theorem isFor_put (target name : String) (as : Attributes) (cs cs' : List Node) (v : Value) :
    isFor target (.element name (Entries.put as Styling.htmlAttributesKey v) cs) =
      isFor target (.element name as cs') := by
  have hkey : Entries.get? (Entries.put as Styling.htmlAttributesKey v) "target" =
      Entries.get? as "target" := by rw [Entries.get?_put, if_neg (by decide)]
  simp only [isFor, Node.attribute?, Node.attributes, hkey]
  rfl

/-- Styling makes no directive and unmakes none. -/
theorem isFor_styleNode (target : String) (classes : Entries String String) (c : Option String)
    (n : Node) : isFor target (Styling.styleNode classes c n).1 = isFor target n := by
  cases n with
  | text s => rfl
  | element name as cs =>
    rcases Styling.styleNode_element classes c name as cs with
      hsame | ⟨given, as', -, hput, hstyled⟩
    · rw [hsame]
    · obtain ⟨html, rfl⟩ := Styling.putClass?_eq_some hput
      rw [hstyled, isFor_put target name as _ cs]

theorem ignoresHtml_other (target : String) : Styling.IgnoresHtml (other target) :=
  fun name as v => congrArg not (isFor_put target name as [] [] v)

/-! ## A run -/

/-- A node holds no directive of a target, unless it is one itself. -/
def HoldsNoOther (target : String) (n : Node) : Prop :=
  isFor target n = true ∨ holds target n = false

theorem holdsNoOther_scaffold (target : String) {kind : String} {withHeading : Bool} {n : Node}
    (h : n ∈ Draft.scaffold kind withHeading) : HoldsNoOther target n := by
  have hleaf : ∀ {k : Kind} {as : Attributes} {cs : List Node} {name : String},
      (Node.element name as cs).isA k = true → k ≠ .directive → holdsAny target cs = false →
        holds target (.element name as cs) = false := by
    intro k as cs name hk hne hcs
    rw [holds, isFor_eq_false target hk hne, hcs]
    rfl
  rcases List.mem_append.1 h with h | h
  · split at h
    · rw [List.mem_singleton.1 h]
      exact .inr (hleaf (k := .head4) rfl nofun rfl)
    · cases h
  · rw [List.mem_singleton.1 h]
    exact .inr (hleaf (k := .definitionList) rfl nofun rfl)

/-- A list that takes in another holds a directive only if one of them did. -/
theorem holdsNoOther_mergeList {target : String} {n m : Node} (hlist : n.isA .definitionList = true)
    (hn : HoldsNoOther target n) (hm : HoldsNoOther target m) :
    HoldsNoOther target (n.mergeList m) := by
  have hlent : holds target n = false := hn.resolve_left (by simp [isFor_eq_false target hlist])
  rcases hm with hm | hm
  · have hsame : isFor target (n.mergeList m) = isFor target m := by cases m <;> rfl
    exact .inl (hsame.trans hm)
  · rw [← every_other_iff] at hlent hm
    exact .inr (every_other_iff.1 (DefinitionList.every_mergeList hlent hm))

/-- A run that ends well leaves no directive at the top level, and none at any depth if only
directives held any. -/
theorem directives_of_run {rules : DirectiveRules} {name : String} {as : Attributes}
    {cs : List Node} {log : List Notice} {m : Nat} {w : Work}
    (h : run rules ⟨Draft.ofPage (Page.ofElement name as cs), log⟩ = .ok m w) :
    w.draft.page.name = name ∧ w.draft.page.attributes = as ∧
      (∀ n ∈ w.draft.page.nodes, isFor rules.target n = false) ∧
      ((∀ n ∈ cs, HoldsNoOther rules.target n) →
        ∀ n ∈ w.draft.page.nodes, holds rules.target n = false) := by
  obtain ⟨hname, hattributes⟩ := root_run h
  have htop : ∀ n ∈ w.draft.page.nodes, isFor rules.target n = false :=
    fun n hn => (unmarked_run h n hn).2
  refine ⟨hname, hattributes, htop, fun hcs n hn => ?_⟩
  have hother : HoldsNoOther rules.target n :=
    forall_run (fun _ _ _ hn => holdsNoOther_scaffold rules.target hn)
      (fun _ _ hlist hn hm => holdsNoOther_mergeList hlist hn hm) hcs h n hn
  exact hother.resolve_left (by simp [htop n hn])

end Directive

/-! ## Documents -/

namespace Document

open Directive (isFor holds holdsAny HoldsNoOther)

theorem toNode_styled (c : Config) (w : Directive.Work) :
    (styled c w).draft.page.toNode = .element w.draft.page.name w.draft.page.attributes
      (Styling.styleNodes c.styling.listClasses none w.draft.page.nodes).1 := by
  have hlength := Styling.length_styleNodes c.styling.listClasses none w.draft.page.nodes
  rw [Page.nodes, List.length_map] at hlength
  have hnodes := Page.map_node_renew hlength
  rw [Page.toNode, Page.nodes]
  congr 1

/-- No directive is left at the top level of a document. There is one elsewhere in its tree only if
the root of the page is one, or a node at the top level of the page that is none held one. -/
theorem directives_of_ofPage [Html.Highlighter] {c : Config} {path : Option String}
    {seed : List String} {name : String} {as : Attributes} {cs : List Node} {d : Document}
    (h : ofPage c path seed (Page.ofElement name as cs) = .ok d) :
    (∀ n ∈ d.tree.children, isFor c.directives.target n = false) ∧
    (holds c.directives.target d.tree = true →
      isFor c.directives.target (.element name as cs) = true ∨
        ∃ n ∈ cs, isFor c.directives.target n = false ∧ holds c.directives.target n = true) := by
  obtain ⟨m, w, hrun, hdraft⟩ := ofPage_ok h
  obtain ⟨hname, has, htop, hdeep⟩ := Directive.directives_of_run hrun
  obtain ⟨ns, htree, htop', hdeep'⟩ : ∃ ns, d.tree = .element name as ns ∧
      (∀ n ∈ ns, isFor c.directives.target n = false) ∧
      ((∀ n ∈ w.draft.page.nodes, holds c.directives.target n = false) →
        ∀ n ∈ ns, holds c.directives.target n = false) := by
    rcases hdraft with hdraft | hdraft
    · refine ⟨w.draft.page.nodes, ?_, htop, id⟩
      rw [tree, hdraft, Page.toNode, hname, has]
    · refine ⟨(Styling.styleNodes c.styling.listClasses none w.draft.page.nodes).1, ?_, ?_,
        fun hall => ?_⟩
      · rw [tree, hdraft, toNode_styled, hname, has]
      · exact Styling.forall_styleNodes
          (fun c' n hn => (Directive.isFor_styleNode _ _ c' n).trans hn) htop none
      · simp only [← Directive.every_other_iff] at hall ⊢
        exact Styling.forall_styleNodes (fun c' n hn =>
          Styling.every_styleNode (Directive.ignoresHtml_other _) _ c' n hn) hall none
  rw [htree]
  refine ⟨htop', fun hholds => ?_⟩
  rw [holds, Bool.or_eq_true] at hholds
  refine hholds.imp id fun hany => ?_
  by_cases hcs : ∀ n ∈ cs, HoldsNoOther c.directives.target n
  · obtain ⟨n, hn, hone⟩ := Directive.holdsAny_iff.1 hany
    rw [hdeep' (hdeep hcs) n hn] at hone
    cases hone
  · simp only [HoldsNoOther, not_forall, not_or, Bool.not_eq_true, Bool.not_eq_false] at hcs
    obtain ⟨n, hn, hother⟩ := hcs
    exact ⟨n, hn, hother⟩

/-- A paragraph with a directive in it stays as it is, beside a directive that is carried out. -/
theorem directives_of_ofPage_of_paragraph :
    let directive := Node.element "for" [("target", .text "docviewer")]
      [.element "Data" [] [.text "input-from GET /a"]]
    let cs : List Node :=
      [.element "head3" [] [.text "GET /a"], .element "head4" [] [.text "Input"],
        .element "over-text" [] [.element "item-text" [] [.text "q"]],
        .element "head3" [] [.text "GET /b"], directive, .element "Para" [] [directive]]
    ∃ d, ofPage Config.default none [] (Page.ofElement "Document" [] cs) = .ok d ∧
      (∀ n ∈ d.tree.children, isFor "docviewer" n = false) ∧
      (holds "docviewer" d.tree = true → isFor "docviewer" (.element "Document" [] cs) = true ∨
        ∃ n ∈ cs, isFor "docviewer" n = false ∧ holds "docviewer" n = true) := by
  intro directive cs
  have hends : (ofPage Config.default none [] (Page.ofElement "Document" [] cs)).isOk = true := by
    decide +kernel
  cases hd : ofPage Config.default none [] (Page.ofElement "Document" [] cs) with
  | error f =>
    rw [hd] at hends
    cases hends
  | ok d => exact ⟨d, rfl, directives_of_ofPage hd⟩

/-- A directive in a paragraph is left in the document. -/
theorem nested_directive_remains :
    let cs : List Node := [.element "Para" [] [.element "for" [("target", .text "docviewer")]
      [.element "Data" [] [.text "input-from GET /a"]]]]
    ∃ d, ofPage Config.default none [] (Page.ofElement "Document" [] cs) = .ok d ∧
      holds Config.default.directives.target d.tree = true := by
  intro cs
  have hleft : (match ofPage Config.default none [] (Page.ofElement "Document" [] cs) with
    | .ok d => holds Config.default.directives.target d.tree
    | .error _ => false) = true := by decide +kernel
  split at hleft
  · rename_i d hd
    exact ⟨d, hd, hleft⟩
  · cases hleft

end Document
end RouteDocs
