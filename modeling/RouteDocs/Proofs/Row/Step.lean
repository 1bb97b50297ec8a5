import RouteDocs.Draft
import RouteDocs.Proofs.Row.Lists

/-!
# One step of the search for a missing list

The search for the list of a kind in a section goes along a row of nodes. What
it does at a node depends on what it has passed: `stops` tells whether a missing
list belongs in front of the node, `pass` what has been passed after it. What
has been passed goes with the place that the catalog gives to the node, which is
the invariant of the search.

Results:
* `locate_cons`: what the search through blocks does at a block.
* `fits_pass`: what has been passed goes with the place, at every node.
-/
namespace RouteDocs.Row

open Draft (Passed)

/-- Whether a missing list belongs in front of a node. -/
def stops (kind : String) : Passed → Node → Bool
  | .nothing, _ => false
  | .sectionHeading, n =>
    n.endsSection ||
      n.isA .head4 && (kind == ListKind.input.label && n.flatten == ListKind.output.label)
  | .listHeading, n => n.endsSection || n.isA .head4

/-- What has been passed after a node. -/
def pass (routeSection kind : String) : Passed → Node → Passed
  | .nothing, n =>
    if n.isA .head3 && n.flatten == routeSection then .sectionHeading else .nothing
  | .sectionHeading, n => if n.isA .head4 && n.flatten == kind then .listHeading else .sectionHeading
  | .listHeading, _ => .listHeading

section
variable {S kind : String} {passed : Passed} {p : Place} {n : Node} {ns : List Node}

theorem heading_of_stops (h : stops kind passed n = true) :
    n.endsSection = true ∨ n.isA .head4 = true := by
  cases passed with
  | nothing => cases h
  | sectionHeading =>
    simp only [stops, Bool.or_eq_true, Bool.and_eq_true] at h
    exact h.imp_right And.left
  | listHeading => simpa [stops] using h

theorem stops_list (h : n.isA .definitionList = true) : stops kind passed n = false := by
  refine Bool.eq_false_iff.2 fun hs => ?_
  rw [not_list_of_heading (heading_of_stops hs)] at h
  cases h

theorem pass_list (h : n.isA .definitionList = true) : pass S kind passed n = passed := by
  have h3 : n.isA .head3 = false := Node.isA_eq_false h nofun
  have h4 : n.isA .head4 = false := Node.isA_eq_false h nofun
  cases passed <;> simp [pass, h3, h4]

/-! ## The search through blocks -/

theorem locate_cons (S kind : String) (passed : Passed) (position : Nat) (b : Block)
    (rest : List Block) :
    Draft.locate S kind passed position (b :: rest) =
      if stops kind passed b.node then .missing position (passed != .listHeading)
      else if passed = .listHeading ∧ b.node.isA .definitionList = true then .present b.label
      else Draft.locate S kind (pass S kind passed b.node) (position + 1) rest := by
  cases passed with
  | nothing =>
    simp only [Draft.locate, stops, pass, reduceCtorEq, false_and, if_false, Bool.false_eq_true]
    split <;> rfl
  | sectionHeading =>
    simp only [Draft.locate, stops, pass, reduceCtorEq, false_and, if_false]
    cases b.node.endsSection with
    | true => rfl
    | false =>
      cases b.node.isA .head4 with
      | false => simp
      | true =>
        by_cases hk : b.node.flatten = kind
        · -- a heading of the kind itself is no output heading before an input
          subst hk
          have hother : ¬(b.node.flatten = ListKind.input.label ∧
              b.node.flatten = ListKind.output.label) := by
            rintro ⟨hin, hout⟩
            exact absurd (hin.symm.trans hout) (by decide)
          simp [hother]
        · simp only [beq_eq_false_iff_ne.2 hk, Bool.false_or, Bool.true_and, Bool.false_eq_true,
            if_false, if_true]
          rfl
  | listHeading =>
    simp only [Draft.locate, stops, pass, true_and]
    rfl

/-! ## What has been passed and where the row stands -/

/-- What has been passed goes with a place and with what is still to come. -/
def Fits (routeSection kind : String) (p : Place) (ns : List Node) : Passed → Prop
  | .nothing => ∃ n ∈ ns, n.isA .head3 = true ∧ n.flatten = routeSection
  | .sectionHeading => p.routeSection = some routeSection
  | .listHeading => p = ⟨some routeSection, some kind⟩

theorem fits_pass (hfits : Fits S kind p (n :: ns) passed) (hs : stops kind passed n = false) :
    Fits S kind (p.after n) ns (pass S kind passed n) := by
  cases passed with
  | nothing =>
    simp only [pass]
    split
    · rename_i hn
      simp only [Bool.and_eq_true, beq_iff_eq] at hn
      show (p.after n).routeSection = some S
      rw [Place.after_head3 hn.1, hn.2]
    · rename_i hn
      obtain ⟨m, hm, h3, rfl⟩ := hfits
      rcases List.mem_cons.1 hm with rfl | hm
      · simp [h3] at hn
      · exact ⟨m, hm, h3, rfl⟩
  | sectionHeading =>
    have hp : p.routeSection = some S := hfits
    simp only [stops, Bool.or_eq_false_iff] at hs
    simp only [pass]
    split
    · rename_i h4
      simp only [Bool.and_eq_true, beq_iff_eq] at h4
      show p.after n = ⟨some S, some kind⟩
      rw [Place.after_head4 h4.1, hp, h4.2]
    · exact (Place.routeSection_after hs.1 p).trans hp
  | listHeading =>
    simp only [stops, Bool.or_eq_false_iff] at hs
    show p.after n = ⟨some S, some kind⟩
    rw [Place.after_of_no_heading hs.1 hs.2]
    exact hfits

theorem ne_nothing_of_stops (h : stops kind passed n = true) : passed ≠ .nothing := by
  rintro rfl
  cases h

theorem ne_nothing_of_fits (h : Fits S kind p [] passed) : passed ≠ .nothing := by
  rintro rfl
  obtain ⟨n, hn, -⟩ := h
  cases hn

theorem routeSection_of_fits (h : Fits S kind p ns passed) (hne : passed ≠ .nothing) :
    p.routeSection = some S := by
  cases passed with
  | nothing => exact absurd rfl hne
  | sectionHeading => exact h
  | listHeading =>
    have hp : p = ⟨some S, some kind⟩ := h
    rw [hp]

end
end RouteDocs.Row
