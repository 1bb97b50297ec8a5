import RouteDocs.Proofs.Styling

/-!
# Classes of nested lists

A styled list hands its class on to the lists that stand directly in it, and
these to those in them. The styling goes no other way down: what is in a term or
a paragraph of a list is left as it is, the lists in there too.

Results:
* `at?_styleNode`: what a styled tree has at each of its addresses.
* `nested_lists_styled`: a nested list gets the class exactly if all above it are lists.
* `stylePage_skips_paragraph`: a list in a paragraph of a styled list gets no class.
-/
namespace RouteDocs

/-! ## Addresses in a tree -/

/-- All nodes above an address are definition lists. -/
def Node.UnderLists (n : Node) (path : List Nat) : Prop :=
  ∀ k < path.length, ∀ l, n.at? (path.take k) = some l → l.isA .definitionList = true

theorem Node.at?_cons_eq_some_iff {n m : Node} {i : Nat} {path : List Nat} :
    n.at? (i :: path) = some m ↔ ∃ child, n.children[i]? = some child ∧ child.at? path = some m := by
  rw [at?, Option.bind_eq_some_iff]

theorem Node.underLists_nil (n : Node) : n.UnderLists [] := nofun

theorem Node.underLists_cons_iff {n child : Node} {i : Nat} {path : List Nat}
    (hchild : n.children[i]? = some child) :
    n.UnderLists (i :: path) ↔ n.isA .definitionList = true ∧ child.UnderLists path := by
  constructor
  · intro h
    refine ⟨h 0 (Nat.zero_lt_succ _) n rfl, fun k hk l hl => ?_⟩
    exact h (k + 1) (Nat.succ_lt_succ hk) l (at?_cons_eq_some_iff.2 ⟨child, hchild, hl⟩)
  · rintro ⟨hlist, hbelow⟩ k hk l hl
    cases k with
    | zero => exact Option.some.inj hl ▸ hlist
    | succ k =>
      obtain ⟨child', hchild', hl⟩ := at?_cons_eq_some_iff.1 hl
      obtain rfl := Option.some.inj (hchild.symm.trans hchild')
      exact hbelow k (Nat.lt_of_succ_lt_succ hk) l hl

namespace Styling

/-! ## Rows without headings -/

def noHeading (name : String) (_ : Attributes) : Bool :=
  ((Kind.ofName? name).bind Kind.headingLevel).isNone

section
variable {classes : Entries String String} {c : Option String} {n m : Node} {given : String}

theorem classAfter_of_every (h : n.every noHeading = true) : classAfter classes c n = c := by
  cases n with
  | text s => rfl
  | element name as cs =>
    have hname := (Node.every_element.1 h).1
    rw [noHeading] at hname
    unfold classAfter
    simp only [Node.kind?]
    cases hk : Kind.ofName? name with
    | none => rfl
    | some k => cases k <;> simp_all [Kind.endsSection, Kind.headingLevel]

theorem foldl_classAfter_of_every {ns : List Node} (h : Node.everyAll noHeading ns = true) :
    ns.foldl (classAfter classes) c = c := by
  induction ns with
  | nil => rfl
  | cons n rest ih =>
    rw [Node.everyAll, Bool.and_eq_true] at h
    rw [List.foldl_cons, classAfter_of_every h.1]
    exact ih h.2

/-! ## A styled tree -/

theorem styleNode_other (hlist : n.isA .definitionList = false) :
    styleNode classes c n = (n, none) := by
  cases n with
  | text s => rfl
  | element name as cs =>
    rw [styleNode]
    split
    · rename_i hkind _
      rw [Node.isA, Node.kind?, hkind] at hlist
      cases hlist
    · rfl

/-- What a node of a tree is when the tree is styled with a class in force: a list beneath lists has
the class, and any other node is as it was. -/
structure StyledAt (root : Node) (path : List Nat) (given : String) (m m' : Node) : Prop where
  list : m.isA .definitionList = true → root.UnderLists path → cssClass? m' = some (.text given)
  other : ¬ (m.isA .definitionList = true ∧ root.UnderLists path) → m' = m

/-- What a styled tree has at each of its addresses. -/
theorem at?_styleNode (hgiven : given ≠ "") {path : List Nat} (hplain : n.every noHeading = true)
    (h : (styleNode classes (some given) n).2 = none) (hm : n.at? path = some m) :
    ∃ m', (styleNode classes (some given) n).1.at? path = some m' ∧
      StyledAt n path given m m' := by
  induction path generalizing n with
  | nil =>
    obtain rfl := Option.some.inj hm
    refine ⟨_, rfl, fun hlist _ => (styleNode_of_list hgiven hlist h).1, fun hnot => ?_⟩
    have hlist : n.isA .definitionList = false :=
      Bool.eq_false_iff.2 fun hlist => hnot ⟨hlist, n.underLists_nil⟩
    rw [styleNode_other hlist]
  | cons i path ih =>
    obtain ⟨child, hchild, hm'⟩ := Node.at?_cons_eq_some_iff.1 hm
    have hunder : n.UnderLists (i :: path) ↔ _ := Node.underLists_cons_iff hchild
    cases hlist : n.isA .definitionList with
    | false =>
      -- the styling does not look into it
      have hout : ¬ n.UnderLists (i :: path) := fun hin =>
        Bool.false_ne_true (hlist.symm.trans (hunder.1 hin).1)
      exact ⟨m, by rw [styleNode_other hlist]; exact hm, fun _ hin => absurd hin hout, fun _ => rfl⟩
    | true =>
      obtain ⟨-, hchildren, hends⟩ := styleNode_of_list hgiven hlist h
      have hrow := Node.everyAll_children hplain
      have hbefore : Node.everyAll noHeading (n.children.take i) = true :=
        Node.everyAll_iff.2 fun k hk => Node.everyAll_iff.1 hrow k (List.mem_of_mem_take hk)
      -- no heading before the child, so it is styled with the same class
      obtain ⟨hat, hok⟩ := styleNodes_getElem? hends hchild
      rw [foldl_classAfter_of_every hbefore] at hat hok
      have hinside := Node.everyAll_iff.1 hrow child (List.mem_of_getElem? hchild)
      obtain ⟨m', hm'', hstyled⟩ := ih hinside hok hm'
      refine ⟨m', Node.at?_cons_eq_some_iff.2 ⟨_, by rw [hchildren]; exact hat, hm''⟩, ?_⟩
      simp only [hlist, true_and] at hunder
      exact ⟨fun hl hin => hstyled.list hl (hunder.1 hin),
        fun hnot => hstyled.other fun hin => hnot ⟨hin.1, hunder.2 hin.2⟩⟩

end

/-- When the styling of a page has ended well, a list at the top level that was given a class and
has no headings in it is the same tree but for the lists beneath nothing but lists: each of these
has the class, and every other node at every depth is as it was. -/
theorem nested_lists_styled {classes : Entries String String} (hclasses : ∀ e ∈ classes, e.2 ≠ "")
    {p p' : Page} (hends : stylePage classes none p = (p', none)) {before rest : List Block}
    {b : Block} (hblocks : p.blocks = before ++ b :: rest) {c : String}
    (hlist : b.node.isA .definitionList = true)
    (hclass : lastClass? classes (before.map (·.node)) = some c)
    (hplain : b.node.every noHeading = true) :
    ∃ styled, p'.blocks[before.length]? = some ⟨b.label, styled⟩ ∧
      cssClass? styled = some (.text c) ∧
      ∀ path m, b.node.at? path = some m →
        ∃ m', styled.at? path = some m' ∧ StyledAt b.node path c m m' := by
  have hnodes : p.nodes = before.map (·.node) ++ b.node :: rest.map (·.node) := by
    simp [Page.nodes, hblocks]
  have hn : p.nodes[before.length]? = some b.node := by
    simp [hnodes]
  have hgiven := lastClass?_ne_empty hclasses hclass
  obtain ⟨hpage, hok⟩ := Prod.mk.inj hends
  obtain ⟨hat, hstyled⟩ := styleNodes_getElem? hok hn
  have habove : p.nodes.take before.length = before.map (·.node) := by
    simp [hnodes]
  rw [habove, classAfterAll, hclass] at hat hstyled
  refine ⟨_, ?_, (styleNode_of_list hgiven hlist hstyled).1, fun path m hm =>
    at?_styleNode hgiven hplain hstyled hm⟩
  rw [← hpage]
  exact Page.getElem?_withNodes (by simp [hblocks]) hat

/-- A list with one list in it, which has one in a paragraph. -/
theorem nested_lists_styled_of_paragraph :
    let p : Page := .ofElement "Document" [] [
      .element "head4" [] [.text "Output"],
      .element "over-text" [] [
        .element "item-text" [] [.text "filter"],
        .element "over-text" [] [.element "Para" [] [.element "over-text" [] []]]]]
    let classes := [("Input", "input-params"), ("Output", "output-params")]
    (∀ e ∈ classes, e.2 ≠ "") ∧ (p.nodes[1]).every noHeading = true ∧
      lastClass? classes (p.nodes.take 1) = some "output-params" ∧
      ∃ p' styled nested inner, stylePage classes none p = (p', none) ∧
        p'.blocks[1]? = some ⟨1, styled⟩ ∧
        cssClass? styled = some (.text "output-params") ∧
        styled.at? [1] = some nested ∧ cssClass? nested = some (.text "output-params") ∧
        styled.at? [1, 0, 0] = some inner ∧ inner = .element "over-text" [] [] := by
  intro p classes
  have hclasses : ∀ e ∈ classes, e.2 ≠ "" := by decide
  have hplain : (p.nodes[1]).every noHeading = true := by decide
  have hclass : lastClass? classes (p.nodes.take 1) = some "output-params" := by rfl
  have hends : (stylePage classes none p).2 = none := by rfl
  have hblocks : p.blocks = p.blocks.take 1 ++ ⟨1, p.nodes[1]⟩ :: [] := rfl
  obtain ⟨styled, hstyled, houter, hinside⟩ :=
    nested_lists_styled hclasses (Prod.ext rfl hends) hblocks rfl hclass hplain
  obtain ⟨nested, hnested, hlist⟩ := hinside [1] _ rfl
  obtain ⟨inner, hinner, hother⟩ := hinside [1, 0, 0] _ rfl
  refine ⟨hclasses, hplain, hclass, _, styled, nested, inner, Prod.ext rfl hends, hstyled, houter,
    hnested, hlist.list rfl ?_, hinner, hother.other ?_⟩
  · intro k hk l hl
    obtain rfl : k = 0 := Nat.lt_one_iff.1 hk
    exact Option.some.inj hl ▸ rfl
  · rintro ⟨-, hunder⟩
    exact Bool.false_ne_true (hunder 2 (by decide) _ rfl)

/-- A list in a paragraph of a styled list gets no class. -/
theorem stylePage_skips_paragraph :
    let p : Page := .ofElement "Document" [] [
      .element "head4" [] [.text "Output"],
      .element "over-text" [] [.element "Para" [] [.element "over-text" [] []]]]
    let classes := [("Input", "input-params"), ("Output", "output-params")]
    (∀ e ∈ classes, e.2 ≠ "") ∧ (p.nodes[1]).every noHeading = true ∧
      ∃ p' outer inner, stylePage classes none p = (p', none) ∧ p'.nodes[1]? = some outer ∧
        cssClass? outer = some (.text "output-params") ∧ outer.at? [0, 0] = some inner ∧
        inner.isA .definitionList = true ∧ cssClass? inner = none := by
  intro p classes
  exact ⟨by decide, by decide, _, _, _, rfl, rfl, rfl, rfl, rfl, rfl⟩

end Styling
end RouteDocs
