import RouteDocs.Directive
import RouteDocs.Proofs.Catalog
import RouteDocs.Proofs.DefinitionList.Union

/-!
# What a run does to the blocks of a page

A merge changes the block it merges into and a mark the block of a directive;
neither changes which blocks there are, of what kind, or what their headings
say. So the blocks of a page remain on it, each under its own label, until the
directives are taken off.

Results:
* `node?_mergeBlocks`: the content of every block after a merge.
* `Remains.modify`, `Remains.insertAt`: a block of a page remains on it.
* `mergeBlocks_isUnion`: the block merged into becomes the union of both.
-/
namespace RouteDocs

/-- Two nodes of one kind that the catalog cannot tell apart. -/
structure Node.Alike (n m : Node) : Prop where
  kind : n.kind? = m.kind?
  role : Catalog.SameRole n m

namespace Node.Alike

theorem refl (n : Node) : n.Alike n :=
  ⟨rfl, rfl, fun _ => rfl⟩

theorem trans {n m k : Node} (h : n.Alike m) (h' : m.Alike k) : n.Alike k :=
  ⟨h.kind.trans h'.kind, h.role.isList.trans h'.role.isList,
    fun p => (h.role.after p).trans (h'.role.after p)⟩

theorem isA {n m : Node} (h : n.Alike m) (k : Kind) : n.isA k = m.isA k := by
  rw [Node.isA, Node.isA, h.kind]

theorem flatten_of_head3 {n m : Node} (h : n.Alike m) (h3 : m.isA .head3 = true) :
    n.flatten = m.flatten := by
  have hn := Place.after_head3 ((h.isA .head3).trans h3) Place.start
  rw [h.role.after, Place.after_head3 h3] at hn
  simpa using hn.symm

end Node.Alike

/-- A block is still on a page: under its label, with its kind and its heading. -/
def Block.Remains (b : Block) (p : Page) : Prop :=
  ∃ c ∈ p.blocks, c.label = b.label ∧ c.node.Alike b.node

namespace Block.Remains

variable {b : Block} {p : Page}

theorem of_mem (h : b ∈ p.blocks) : b.Remains p :=
  ⟨b, h, rfl, Node.Alike.refl b.node⟩

theorem modify (h : b.Remains p) {l : Nat} {f : Node → Node}
    (hf : ∀ c ∈ p.blocks, c.label = l → (f c.node).Alike c.node) : b.Remains (p.modify l f) := by
  obtain ⟨c, hc, hlabel, halike⟩ := h
  refine ⟨⟨c.label, if c.label = l then f c.node else c.node⟩,
    Page.mem_modifyBlocks.2 ⟨c, hc, rfl⟩, hlabel, ?_⟩
  split
  · rename_i hl
    exact (hf c hc hl).trans halike
  · exact halike

theorem insertAt (h : b.Remains p) (position : Nat) (new : List Node) :
    b.Remains (p.insertAt position new) := by
  obtain ⟨c, hc, hlabel, halike⟩ := h
  refine ⟨c, ?_, hlabel, halike⟩
  rw [← List.take_append_drop position p.blocks, List.mem_append] at hc
  simp only [Page.insertAt, List.mem_append]
  exact hc.elim (fun h => .inl (.inl h)) .inr

end Block.Remains

namespace Directive

/-! ## A mark -/

theorem alike_mark (n : Node) : (mark n).Alike n := by
  cases n with
  | text s => exact Node.Alike.refl _
  | element name as cs => exact ⟨rfl, rfl, fun _ => rfl⟩

/-! ## A merge -/

theorem alike_mergeList (source : Node) {dest : Node} (h : dest.isA .definitionList = true) :
    (source.mergeList dest).Alike dest := by
  have hkind : (source.mergeList dest).kind? = dest.kind? := by cases dest <;> rfl
  refine ⟨hkind, Catalog.sameRole_of_lists ?_ h⟩
  rw [Node.isA, hkind]
  exact h

theorem isMarked_mergeList (source dest : Node) :
    isMarked (source.mergeList dest) = isMarked dest := by
  cases dest <;> rfl

theorem mergeBlocks_cases (p : Page) (source dest : Nat) :
    mergeBlocks p source dest = p ∨
      ∃ n, p.node? source = some n ∧ mergeBlocks p source dest = p.modify dest n.mergeList := by
  unfold mergeBlocks
  cases h : p.node? source with
  | none => exact .inl rfl
  | some n => exact .inr ⟨n, rfl, rfl⟩

theorem placed_mergeBlocks {p : Page} (source : Nat) {dest : Nat}
    (h : ∀ b ∈ p.blocks, b.label = dest → b.node.isA .definitionList = true) (q : Place) :
    Catalog.placed q (mergeBlocks p source dest).blocks = Catalog.placed q p.blocks := by
  rcases mergeBlocks_cases p source dest with heq | ⟨n, -, heq⟩
  · rw [heq]
  · rw [heq]
    exact Catalog.placed_modifyBlocks (fun b hb hl => (alike_mergeList n (h b hb hl)).role) q

theorem node?_mergeBlocks {p : Page} {source : Nat} {n : Node} (h : p.node? source = some n)
    (dest l : Nat) :
    (mergeBlocks p source dest).node? l =
      if l = dest then (p.node? l).map n.mergeList else p.node? l := by
  simp only [mergeBlocks, h]
  exact Page.node?_modify p dest l n.mergeList

/-- What a merge leaves in the block merged into is the one union of its list and the other. These
are trees of their own and share no element; `Arena.mergeLists_spec` says the same of such lists in
their places. Every other block, the source's among them, stays as it was. -/
theorem mergeBlocks_isUnion {p : Page} {i j : Nat} {source dest : Node}
    (hsource : p.node? i = some source) (hdest : p.node? j = some dest) :
    (∀ result, DefinitionList.IsUnion source dest result ↔ result = source.mergeList dest) ∧
    (mergeBlocks p i j).node? j = some (source.mergeList dest) ∧
    ∀ l, l ≠ j → (mergeBlocks p i j).node? l = p.node? l := by
  refine ⟨fun result => DefinitionList.isUnion_iff, ?_, fun l hl => ?_⟩
  · rw [node?_mergeBlocks hsource, if_pos rfl, hdest]
    rfl
  · rw [node?_mergeBlocks hsource, if_neg hl]

theorem mergeBlocks_isUnion_of_two_lists :
    let source := Node.element "over-text" [] [.element "item-text" [] [.text "size"], .text "px"]
    let dest := Node.element "over-text" [("indent", .int 4)]
      [.element "item-text" [] [.text "size"], .element "item-text" [] [.text "colour"]]
    let p := Page.ofElement "Document" [] [source, dest]
    p.node? 0 = some source ∧ p.node? 1 = some dest ∧
    (∀ result, DefinitionList.IsUnion source dest result ↔ result = source.mergeList dest) ∧
    (mergeBlocks p 0 1).node? 1 = some (source.mergeList dest) ∧
    ∀ l, l ≠ 1 → (mergeBlocks p 0 1).node? l = p.node? l :=
  ⟨rfl, rfl, mergeBlocks_isUnion rfl rfl⟩

end Directive
end RouteDocs
