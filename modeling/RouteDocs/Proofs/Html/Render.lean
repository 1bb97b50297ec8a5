import RouteDocs.Html.Render
import RouteDocs.Proofs.Heading.Tree

/-!
# Rendering and anchors

An anchor is an attribute that no rendering reads.

Results:
* `render_anchorFound`: a tree is shown the same whether or not its headings have anchors.
-/
namespace RouteDocs.Html.Renderer

open Navigation (isHeading isGroup)
open Heading (anchorFound anchorFoundAll)

variable (r : Renderer)

/-- A heading of level three is shown without regard to its anchor. -/
theorem render_ensureNode_head3 (trail : List String) (ids : Identifiers) (as : Attributes)
    (cs : List Node) :
    r.render trail (Anchor.ensureNode ids (.element Kind.head3.name as cs)).1 =
      r.render trail (.element Kind.head3.name as cs) := by
  have hkind : Kind.ofName? Kind.head3.name = some .head3 := Kind.ofName?_eq_some_iff.2 rfl
  have hhtml : htmlAttributes (Anchor.ensure ids (Node.flattenAll cs) as).1 = htmlAttributes as :=
    Anchor.get?_ensure ids _ as (by decide)
  have hfeed : innerLineFeed (Anchor.ensure ids (Node.flattenAll cs) as).1 = innerLineFeed as := by
    rw [innerLineFeed, Anchor.get?_ensure ids _ as (by decide), innerLineFeed]
  rw [Anchor.ensureNode_element]
  cases cs <;> simp only [render, hkind, wrap, hhtml, hfeed]

theorem renderTerms_cons_other {n : Node} (h : n.isA .term = false) (trail : List String)
    (opened : Bool) (rest : List Node) :
    r.renderTerms trail opened (n :: rest) =
      if opened then do
        let first ← r.render trail n
        let others ← r.renderTerms trail true rest
        return first ++ others
      else r.renderTerms trail false rest := by
  cases n with
  | text s => rw [renderTerms]
  | element name as cs =>
    have hname : name ≠ Kind.term.name := by
      rintro rfl
      rw [Node.isA, Node.kind?, Kind.ofName?_eq_some_iff.2 rfl] at h
      cases h
    rw [renderTerms, if_neg hname]

mutual

/-- A tree is shown the same whether or not the headings found in it have anchors. -/
theorem render_anchorFound (trail : List String) (ids : Identifiers) : ∀ n : Node,
    r.render trail (anchorFound ids n).1 = r.render trail n
  | .text s => rfl
  | .element name as cs => by
    cases h : isHeading name with
    | true =>
      cases hgroup : isGroup name with
      | true => rw [Heading.anchorFound_group h hgroup]
      | false =>
        obtain rfl := Heading.eq_head3 h hgroup
        rw [Heading.anchorFound_route h hgroup, render_ensureNode_head3]
    | false =>
      rw [Heading.anchorFound_other h]
      have hall := renderAll_anchorFoundAll (trail ++ [name]) ids cs
      have hterms := renderTerms_anchorFoundAll (trail ++ [name]) false ids cs
      have hflat := Heading.flattenAll_anchorFoundAll ids cs
      cases cs with
      | nil => rfl
      | cons c rest =>
        -- an element of no known kind is shown by its first child
        have hfirst := render_anchorFound (trail ++ [name]) ids c
        rw [Heading.anchorFoundAll_cons] at hall hterms hflat ⊢
        simp only [render, hall, hterms, hflat, hfirst]

theorem renderAll_anchorFoundAll (trail : List String) (ids : Identifiers) : ∀ ns : List Node,
    r.renderAll trail (anchorFoundAll ids ns).1 = r.renderAll trail ns
  | [] => rfl
  | n :: rest => by
    rw [Heading.anchorFoundAll_cons, renderAll, renderAll, render_anchorFound trail ids n,
      renderAll_anchorFoundAll trail _ rest]

theorem renderTerms_anchorFoundAll (trail : List String) (opened : Bool) (ids : Identifiers) :
    ∀ ns : List Node,
      r.renderTerms trail opened (anchorFoundAll ids ns).1 = r.renderTerms trail opened ns
  | [] => rfl
  | .text s :: rest => by
    have hrest := fun opened => renderTerms_anchorFoundAll trail opened ids rest
    rw [Heading.anchorFoundAll_cons]
    simp only [renderTerms, anchorFound, Anchor.ensureWithin, hrest]
  | .element name as cs :: rest => by
    have hrest := fun opened ids => renderTerms_anchorFoundAll trail opened ids rest
    rw [Heading.anchorFoundAll_cons]
    by_cases hname : name = Kind.term.name
    · subst hname
      have hchildren := renderAll_anchorFoundAll trail ids cs
      rw [Heading.anchorFound_other (by decide)]
      simp only [renderTerms, if_true, hchildren, hrest]
    · have hother : (Node.element name as cs).isA .term = false := by
        rw [Node.isA, Node.kind?, beq_eq_false_iff_ne, Ne, Kind.ofName?_eq_some_iff]
        exact hname
      have hother' := (Heading.isA_anchorFound ids (.element name as cs) .term).trans hother
      rw [renderTerms_cons_other r hother', renderTerms_cons_other r hother,
        render_anchorFound trail ids (.element name as cs)]
      simp only [hrest]

end

theorem render_anchorTop (trail : List String) (ids : Identifiers) (n : Node) :
    r.render trail (Heading.anchorTop ids n).1 = r.render trail n := by
  cases h3 : n.isA .head3 with
  | true => rw [Heading.anchorTop_head3 h3, render_anchorFound]
  | false => rw [Heading.anchorTop_other h3]

end RouteDocs.Html.Renderer
