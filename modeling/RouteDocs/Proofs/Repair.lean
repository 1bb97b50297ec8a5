import RouteDocs.Proofs.Row.Put

/-!
# Repairing a section

A section that lacks a list is repaired in one place: the list, or the heading of its kind with
the list, is put in between two blocks of the page, and all blocks stay as they are. The search
passes no heading that ends the section, so the place is in the first section of its heading.

Results:
* `locate_inside`, `locate_region`: the search for a missing list stops in the first section.
* `ensureList_settled`: what is on file is returned again, and nothing is put in.
* `ensureList_repairs`: what making sure of a list does to a page.
-/
namespace RouteDocs.Draft

/-- Blocks split at the first heading of a section, and further on in that section. -/
structure Region (routeSection : String) (bs before : List Block) (heading : Block)
    (inside after : List Block) : Prop where
  split : bs = before ++ heading :: (inside ++ after)
  first : ∀ b ∈ before, ¬(b.node.isA .head3 = true ∧ b.node.flatten = routeSection)
  isHeading : heading.node.isA .head3 = true
  text : heading.node.flatten = routeSection
  inside : ∀ b ∈ inside, b.node.endsSection = false

section
variable {S kind : String} {passed : Passed} {position found : Nat} {withHeading : Bool}
  {b : Block} {bs : List Block} {n : Node}

/-! ## The search within a section -/

theorem pass_ne_nothing (h : passed ≠ .nothing) : Row.pass S kind passed n ≠ .nothing := by
  cases passed with
  | nothing => exact absurd rfl h
  | sectionHeading =>
    rw [Row.pass]
    split <;> decide
  | listHeading =>
    rw [Row.pass]
    decide

theorem endsSection_of_passed (h : passed ≠ .nothing) (hs : Row.stops kind passed n = false) :
    n.endsSection = false := by
  cases passed with
  | nothing => exact absurd rfl h
  | sectionHeading => exact (Bool.or_eq_false_iff.1 hs).1
  | listHeading => exact (Bool.or_eq_false_iff.1 hs).1

theorem locate_inside (hp : passed ≠ .nothing)
    (h : locate S kind passed position bs = .missing found withHeading) :
    ∃ inside after, bs = inside ++ after ∧ found = position + inside.length ∧
      ∀ b ∈ inside, b.node.endsSection = false := by
  induction bs generalizing passed position with
  | nil =>
    rw [locate, Spot.missing.injEq] at h
    exact ⟨[], [], rfl, h.1.symm, List.forall_mem_nil _⟩
  | cons b rest ih =>
    rw [Row.locate_cons] at h
    cases hs : Row.stops kind passed b.node with
    | true =>
      rw [hs, if_pos rfl, Spot.missing.injEq] at h
      exact ⟨[], b :: rest, rfl, h.1.symm, List.forall_mem_nil _⟩
    | false =>
      rw [hs, if_neg Bool.false_ne_true] at h
      split at h
      · cases h
      · obtain ⟨inside, after, rfl, hfound, hinside⟩ := ih (pass_ne_nothing hp) h
        have hb := endsSection_of_passed hp hs
        refine ⟨b :: inside, after, rfl, ?_, List.forall_mem_cons.2 ⟨hb, hinside⟩⟩
        rw [hfound, List.length_cons]
        omega

/-- The search for a list that a section lacks stops in the first section with the heading. -/
theorem locate_region
    (hsection : ∃ b ∈ bs, b.node.isA .head3 = true ∧ b.node.flatten = S)
    (h : locate S kind .nothing position bs = .missing found withHeading) :
    ∃ before heading inside after, Region S bs before heading inside after ∧
      found = position + (before.length + 1 + inside.length) := by
  induction bs generalizing position with
  | nil =>
    obtain ⟨b, hb, -⟩ := hsection
    cases hb
  | cons b rest ih =>
    by_cases hb : b.node.isA .head3 = true ∧ b.node.flatten = S
    · have hhere : (b.node.isA .head3 && b.node.flatten == S) = true := by simp [hb]
      rw [locate, if_pos hhere] at h
      have hp : Passed.sectionHeading ≠ .nothing := by decide
      obtain ⟨inside, after, rfl, hfound, hinside⟩ := locate_inside hp h
      refine ⟨[], b, inside, after, ⟨rfl, List.forall_mem_nil _, hb.1, hb.2, hinside⟩, ?_⟩
      rw [hfound, List.length_nil]
      omega
    · have hother : ¬(b.node.isA .head3 && b.node.flatten == S) = true := by simpa using hb
      rw [locate, if_neg hother] at h
      have hrest : ∃ c ∈ rest, c.node.isA .head3 = true ∧ c.node.flatten = S := by
        obtain ⟨c, hc, hhead⟩ := hsection
        rcases List.mem_cons.1 hc with rfl | hc
        · exact absurd hhead hb
        · exact ⟨c, hc, hhead⟩
      obtain ⟨before, heading, inside, after, hregion, hfound⟩ := ih hrest h
      obtain ⟨hsplit, hfirst, hhead, htext, hinside⟩ := hregion
      refine ⟨b :: before, heading, inside, after, ⟨?_, ?_, hhead, htext, hinside⟩, ?_⟩
      · rw [hsplit, List.cons_append]
      · exact List.forall_mem_cons.2 ⟨hb, hfirst⟩
      · rw [hfound, List.length_cons]
        omega

/-- A row with members of a kind can be cut at the first of them. -/
theorem exists_first {α : Type} {P : α → Prop} [DecidablePred P] {xs : List α}
    (h : ∃ x ∈ xs, P x) :
    ∃ before x after, xs = before ++ x :: after ∧ (∀ y ∈ before, ¬P y) ∧ P x := by
  have hsome : (xs.find? fun x => decide (P x)).isSome := by
    rw [List.find?_isSome]
    simpa using h
  obtain ⟨x, hfind⟩ := Option.isSome_iff_exists.1 hsome
  obtain ⟨hx, before, after, hsplit, hbefore⟩ := List.find?_eq_some_iff_append.1 hfind
  exact ⟨before, x, after, hsplit, by simpa using hbefore, of_decide_eq_true hx⟩

/-- A page with a section has a first heading of it. -/
theorem exists_region (hsection : ∃ b ∈ bs, b.node.isA .head3 = true ∧ b.node.flatten = S) :
    ∃ before heading after, Region S bs before heading [] after := by
  obtain ⟨before, heading, after, hsplit, hbefore, h3, htext⟩ := exists_first hsection
  exact ⟨before, heading, after, hsplit, hbefore, h3, htext, List.forall_mem_nil _⟩

end

/-! ## The repair -/

/-- What making sure of a list, the block `l`, has done to a page. -/
structure Repaired (routeSection kind : String) (p : Page) (d : Draft) (l : Nat) : Prop where
  labelled : d.page.WellLabelled
  isList : ∃ b ∈ d.page.blocks, b.label = l ∧ b.node.isA .definitionList = true
  onFile : ∀ k : Place, d.rebuild.lookup k =
    if k = ⟨some routeSection, some kind⟩ then some l else (ofPage p).lookup k
  root : d.page.name = p.name ∧ d.page.attributes = p.attributes
  putIn : ∃ before heading inside after new,
    Region routeSection p.blocks before heading inside after ∧
      d.page.blocks = before ++ heading :: (inside ++ new ++ after) ∧
      new.map (·.node) ∈ [[], [Node.newDefinitionList],
        [Node.newHeading 4 kind, Node.newDefinitionList]]
  again : (d.ensureList routeSection kind).1.page = d.page ∧
    (d.ensureList routeSection kind).2 = (l, [])
  rebuilt : (d.rebuild.ensureList routeSection kind).1.page = d.page ∧
    (d.rebuild.ensureList routeSection kind).2 = (l, [])

section
variable {d : Draft} {S kind : String} {p : Page} {l : Nat}

/-- What is on file is returned again, and nothing is put in. -/
theorem ensureList_settled (h : d.lookup ⟨some S, some kind⟩ = some l) :
    (d.ensureList S kind).1.page = d.page ∧ (d.ensureList S kind).2 = (l, []) := by
  rw [ensureList_of_some h]
  exact ⟨rfl, rfl⟩

theorem mem_scaffolds (kind : String) (withHeading : Bool) :
    scaffold kind withHeading ∈ [[], [Node.newDefinitionList],
      [Node.newHeading 4 kind, Node.newDefinitionList]] := by
  cases withHeading with
  | false => exact List.mem_cons_of_mem _ List.mem_cons_self
  | true => exact List.mem_cons_of_mem _ (List.mem_cons_of_mem _ List.mem_cons_self)

/-- Making sure of a list of a section returns a list at the top level, which then is the list of its
place; every other place keeps its list. The blocks of the page stay, in order, with at most one
piece put in, a list or a heading of the kind with a list, in the first section with the heading.
Doing it again, with the catalog kept or made anew, returns the same list and changes nothing. -/
theorem ensureList_repairs (hp : p.WellLabelled)
    (hsection : ∃ b ∈ p.blocks, b.node.isA .head3 = true ∧ b.node.flatten = S) (kind : String) :
    Repaired S kind p ((ofPage p).ensureList S kind).1 ((ofPage p).ensureList S kind).2.1 := by
  have hd := coherent_ofPage p
  have hcoherent : ((ofPage p).ensureList S kind).1.Coherent := coherent_ensureList hd hsection
  have hfiled := lookup_ensureList hd hsection kind
  have hrefiled := (hcoherent _).symm.trans hfiled
  cases h : (ofPage p).lookup ⟨some S, some kind⟩ with
  | some l =>
    obtain ⟨before, heading, after, hregion⟩ := exists_region hsection
    have heq := ensureList_of_some h
    constructor
    case labelled => rw [heq]; exact hp
    case isList => exact hcoherent.mem_blocks hfiled
    case onFile =>
      intro k
      rw [heq]
      split
      · rename_i hk
        rw [hk]
        exact h
      · rfl
    case root => rw [heq]; exact ⟨rfl, rfl⟩
    case putIn =>
      rw [heq]
      exact ⟨before, heading, [], after, [], hregion, hregion.split, List.mem_cons_self⟩
    case again => exact ensureList_settled hfiled
    case rebuilt => exact ensureList_settled hrefiled
  | none =>
    obtain ⟨front, back, withHeading, hblocks, hgap, hlocate⟩ := locate_of_none hd hsection h
    obtain ⟨before, heading, inside, after, hregion, hfound⟩ := locate_region hsection hlocate
    have heq := ensureList_of_missing h hlocate
    constructor
    case labelled => rw [heq]; exact Page.wellLabelled_insertAt hp _ _
    case isList => exact hcoherent.mem_blocks hfiled
    case onFile =>
      intro k
      rw [← hcoherent k, heq, lookup_putIn]
      by_cases hk : k = ⟨some S, some kind⟩
      · rw [if_pos hk, hk, h, Option.none_or, if_pos rfl]
      · rw [if_neg hk, if_neg (Ne.symm hk), Option.or_none]
    case root => rw [heq]; exact ⟨rfl, rfl⟩
    case putIn =>
      -- the gap of the catalog and the region of the section are split at one place
      have hlength : front.length = (before ++ heading :: inside).length := by
        rw [List.length_append, List.length_cons]
        omega
      have hsplit : front ++ back = (before ++ heading :: inside) ++ after := by
        rw [← hblocks, List.append_assoc]
        exact hregion.split
      obtain ⟨rfl, rfl⟩ := List.append_inj hsplit hlength
      refine ⟨before, heading, inside, back, Page.label p.nextLabel (scaffold kind withHeading),
        hregion, ?_, ?_⟩
      · rw [heq, blocks_putIn hblocks, List.append_assoc, List.append_assoc, List.cons_append,
          List.append_assoc]
        rfl
      · rw [Page.map_node_label]
        exact mem_scaffolds kind withHeading
    case again => exact ensureList_settled hfiled
    case rebuilt => exact ensureList_settled hrefiled

end

/-- An input list goes in front of the output heading of the first of two sections with one text. -/
theorem ensureList_repairs_of_output :
    let p := Page.ofElement "Document" [] [
      .element "head3" [] [.text "GET /b"], .element "head3" [] [.text "GET /a"],
      .element "Para" [] [.text "lists"], .element "head4" [] [.text "Output"],
      .element "over-text" [] [], .element "head1" [] [.text "more"],
      .element "head3" [] [.text "GET /a"], .element "head4" [] [.text "Input"]]
    p.WellLabelled ∧ (∃ b ∈ p.blocks, b.node.isA .head3 = true ∧ b.node.flatten = "GET /a") ∧
      Repaired "GET /a" "Input" p ((ofPage p).ensureList "GET /a" "Input").1
        ((ofPage p).ensureList "GET /a" "Input").2.1 := by
  intro p
  have hp : p.WellLabelled := Page.wellLabelled_ofElement _ _ _
  have hsection : ∃ b ∈ p.blocks, b.node.isA .head3 = true ∧ b.node.flatten = "GET /a" :=
    ⟨⟨1, .element "head3" [] [.text "GET /a"]⟩, by simp [p, Page.ofElement, Page.label], by decide⟩
  exact ⟨hp, hsection, ensureList_repairs hp hsection "Input"⟩

end RouteDocs.Draft
