import RouteDocs.Proofs.Row.Errands

/-!
# Repairs in any order

Lists of one section that are of different kinds can be made sure of in either order, and so can
lists of two sections. So it is all one in which order the lists of a page are made sure of.

Results:
* `ensure_swap`: two lists can be made sure of in either order.
* `ensureAll_perm`: so can any number of them, in a row of nodes.
* `nodes_ensureLists`: a draft makes sure of lists as its row of nodes does.
* `ensureLists_perm`: in whatever order lists are made sure of, the page ends in one tree.
-/
namespace RouteDocs

namespace Row

def ensureAll (requests : List (String × ListKind)) (ns : List Node) : List Node :=
  requests.foldl (fun ns r => ensure r.1 r.2.label ns) ns

section
variable {ns : List Node} {requests requests' : List (String × ListKind)}

/-- Two lists can be made sure of in either order. -/
theorem ensure_swap (r r' : String × ListKind) (h : HasSection r.1 ns) (h' : HasSection r'.1 ns) :
    ensure r.1 r.2.label (ensure r'.1 r'.2.label ns) =
      ensure r'.1 r'.2.label (ensure r.1 r.2.label ns) := by
  obtain ⟨S, kind⟩ := r
  obtain ⟨T, kind'⟩ := r'
  by_cases hST : S = T
  · subst hST
    cases kind with
    | input =>
      cases kind' with
      | input => rfl
      | output => exact ensure_comm h h'
    | output =>
      cases kind' with
      | input => exact (ensure_comm h' h).symm
      | output => rfl
  · have hplace : (⟨some S, some kind.label⟩ : Place) ≠ ⟨some T, some kind'.label⟩ :=
      fun hp => hST (Option.some.inj (congrArg Place.routeSection hp))
    have hfits : Fits S kind.label .start ns .nothing := h
    have hfits' : Fits T kind'.label .start ns .nothing := h'
    exact ensure_comm_of_put h h' hplace (put_comm_of_ne hST hfits hfits')

/-- Lists can be made sure of in any order. -/
theorem ensureAll_perm (hperm : requests.Perm requests') (hs : ∀ r ∈ requests, HasSection r.1 ns) :
    ensureAll requests ns = ensureAll requests' ns := by
  induction hperm generalizing ns with
  | nil => rfl
  | cons r _ ih => exact ih fun r' hr' => (hs r' (List.mem_cons_of_mem r hr')).ensure
  | swap r r' rest =>
    have hr' : HasSection r'.1 ns := hs r' List.mem_cons_self
    have hr : HasSection r.1 ns := hs r (List.mem_cons_of_mem r' List.mem_cons_self)
    exact congrArg (ensureAll rest) (ensure_swap r r' hr hr')
  | trans hfirst _ ih ih' => exact (ih hs).trans (ih' fun r hr => hs r (hfirst.mem_iff.2 hr))

end

end Row

namespace Draft

/-- Make sure of lists, one after the other. -/
def ensureLists (d : Draft) (requests : List (String × ListKind)) : Draft :=
  requests.foldl (fun d r => (d.ensureList r.1 r.2.label).1) d

section
variable {d : Draft} {S kind : String} {requests : List (String × ListKind)}

theorem wellLabelled_ensureList (h : d.page.WellLabelled) (S kind : String) :
    (d.ensureList S kind).1.page.WellLabelled := by
  rcases page_ensureList d S kind with hpage | ⟨position, withHeading, hpage⟩
  · rwa [hpage]
  · rw [hpage]
    exact Page.wellLabelled_insertAt h _ _

theorem root_ensureList (d : Draft) (S kind : String) :
    (d.ensureList S kind).1.page.name = d.page.name ∧
      (d.ensureList S kind).1.page.attributes = d.page.attributes := by
  rcases page_ensureList d S kind with hpage | ⟨position, withHeading, hpage⟩
  · rw [hpage]
    exact ⟨rfl, rfl⟩
  · rw [hpage]
    exact ⟨rfl, rfl⟩

theorem exists_block_of_hasSection {p : Page} (h : Row.HasSection S p.nodes) :
    ∃ b ∈ p.blocks, b.node.isA .head3 = true ∧ b.node.flatten = S := by
  obtain ⟨n, hn, h3, htext⟩ := h
  obtain ⟨b, hb, rfl⟩ := List.mem_map.1 hn
  exact ⟨b, hb, h3, htext⟩

/-- A draft makes sure of lists as its row of nodes does. -/
theorem nodes_ensureLists (hlabels : d.page.WellLabelled) (hd : d.Coherent)
    (hs : ∀ r ∈ requests, Row.HasSection r.1 d.page.nodes) :
    (d.ensureLists requests).page.toNode =
      .element d.page.name d.page.attributes (Row.ensureAll requests d.page.nodes) := by
  induction requests generalizing d with
  | nil => rfl
  | cons r rest ih =>
    have hsection := exists_block_of_hasSection (hs r List.mem_cons_self)
    have hnodes : (d.ensureList r.1 r.2.label).1.page.nodes =
        Row.ensure r.1 r.2.label d.page.nodes := Row.nodes_ensureList hlabels hd hsection
    have hrest : ∀ r' ∈ rest, Row.HasSection r'.1 (d.ensureList r.1 r.2.label).1.page.nodes := by
      rw [hnodes]
      exact fun r' hr' => (hs r' (List.mem_cons_of_mem r hr')).ensure
    obtain ⟨hname, hattributes⟩ := root_ensureList d r.1 r.2.label
    have htree := ih (wellLabelled_ensureList hlabels r.1 r.2.label)
      (coherent_ensureList hd hsection) hrest
    rw [hname, hattributes, hnodes] at htree
    exact htree

/-- In whatever order the input and output lists of sections are made sure of, the page ends in one
tree. -/
theorem ensureLists_perm {p : Page} (hp : p.WellLabelled)
    {requests requests' : List (String × ListKind)} (hperm : requests.Perm requests')
    (hs : ∀ r ∈ requests, ∃ b ∈ p.blocks, b.node.isA .head3 = true ∧ b.node.flatten = r.1) :
    ((ofPage p).ensureLists requests).page.toNode =
      ((ofPage p).ensureLists requests').page.toNode := by
  have hsections : ∀ r ∈ requests, Row.HasSection r.1 p.nodes := by
    intro r hr
    obtain ⟨b, hb, h3, htext⟩ := hs r hr
    exact ⟨b.node, List.mem_map_of_mem hb, h3, htext⟩
  have hd := coherent_ofPage p
  have hlabels : (ofPage p).page.WellLabelled := hp
  rw [nodes_ensureLists hlabels hd hsections,
    nodes_ensureLists hlabels hd fun r hr => hsections r (hperm.mem_iff.2 hr)]
  exact congrArg _ (Row.ensureAll_perm hperm hsections)

end

/-- A section with an output heading without a list, and one with nothing in it. -/
theorem ensureLists_perm_of_two_sections :
    let p := Page.ofElement "Document" [] [
      .element "head3" [] [.text "GET /a"], .element "head4" [] [.text "Output"],
      .element "head4" [] [.text "Notes"], .element "head3" [] [.text "GET /b"]]
    let requests : List (String × ListKind) :=
      [("GET /a", .output), ("GET /b", .output), ("GET /a", .input), ("GET /b", .input)]
    p.WellLabelled ∧ requests.Perm requests.reverse ∧
      (∀ r ∈ requests, ∃ b ∈ p.blocks, b.node.isA .head3 = true ∧ b.node.flatten = r.1) ∧
      ((ofPage p).ensureLists requests).page.toNode =
        ((ofPage p).ensureLists requests.reverse).page.toNode := by
  intro p requests
  have hp : p.WellLabelled := Page.wellLabelled_ofElement _ _ _
  have hperm : requests.Perm requests.reverse := (List.reverse_perm requests).symm
  have hs : ∀ r ∈ requests, ∃ b ∈ p.blocks, b.node.isA .head3 = true ∧ b.node.flatten = r.1 := by
    decide
  exact ⟨hp, hperm, hs, ensureLists_perm hp hperm hs⟩

end Draft
end RouteDocs
