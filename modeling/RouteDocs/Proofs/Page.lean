import Mathlib.Data.List.Nodup
import Mathlib.Data.List.Perm.Basic
import RouteDocs.Page

/-!
# Blocks and their labels

The labels of a page are its identities: no two blocks, on the page or aside,
share one, and a new block gets a label that was never used. Editing keeps it
so, and a change of one block leaves every other block as it was.

Results:
* `wellLabelled_ofElement`, `wellLabelled_insertAt`, `wellLabelled_modify`,
  `wellLabelled_renew`, `wellLabelled_keep`: labels stay distinct.
* `eq_of_label_eq`: a label belongs to one block.
* `node?_modify`: what a change of one block does to the content of any block.
* `modify_at`: a change of one block leaves the rest of the row.
* `node?_eq_some_iff`: what is found under a label is the block with the label.
* `node?_insertAt`, `node?_removeAt?`: edits leave every block with its content.
-/
namespace RouteDocs.Page

def labels (bs : List Block) : List Nat :=
  bs.map (·.label)

/-- The labels of a page are distinct and all given out. -/
structure WellLabelled (p : Page) : Prop where
  nodup : (labels (p.blocks ++ p.removed)).Nodup
  below : ∀ b ∈ p.blocks ++ p.removed, b.label < p.nextLabel

theorem labels_label (start : Nat) (ns : List Node) :
    labels (label start ns) = List.range' start ns.length := by
  induction ns generalizing start with
  | nil => rfl
  | cons n rest ih =>
    have := ih (start + 1)
    simp only [labels] at this
    simp [labels, label, this, List.range'_succ]

theorem label_mem_range {start : Nat} {ns : List Node} {b : Block} (h : b ∈ label start ns) :
    start ≤ b.label ∧ b.label < start + ns.length := by
  have hmem : b.label ∈ labels (label start ns) := List.mem_map_of_mem h
  rw [labels_label, List.mem_range'_1] at hmem
  exact hmem

theorem node_mem_of_mem_label {start : Nat} {ns : List Node} {b : Block} (h : b ∈ label start ns) :
    b.node ∈ ns := by
  rw [← map_node_label start ns]
  exact List.mem_map_of_mem h

theorem wellLabelled_ofElement (name : String) (as : Attributes) (cs : List Node) :
    (ofElement name as cs).WellLabelled := by
  constructor
  · simp only [ofElement, List.append_nil, labels_label]
    exact List.nodup_range'
  · intro b hb
    simp only [ofElement, List.append_nil] at hb ⊢
    have := (label_mem_range hb).2
    omega

theorem eq_of_label_eq {p : Page} (h : p.WellLabelled) {b c : Block}
    (hb : b ∈ p.blocks ++ p.removed) (hc : c ∈ p.blocks ++ p.removed)
    (hl : b.label = c.label) : b = c :=
  List.inj_on_of_nodup_map h.nodup hb hc hl

/-! ## A change of one block -/

theorem labels_modifyBlocks (l : Nat) (f : Node → Node) (bs : List Block) :
    labels (modifyBlocks l f bs) = labels bs := by
  rw [labels, labels, modifyBlocks, List.map_map]
  apply List.map_congr_left
  intro b _
  simp only [Function.comp]
  split <;> rfl

theorem mem_modifyBlocks {l : Nat} {f : Node → Node} {bs : List Block} {b : Block} :
    b ∈ modifyBlocks l f bs ↔
      ∃ c ∈ bs, b = ⟨c.label, if c.label = l then f c.node else c.node⟩ := by
  rw [modifyBlocks, List.mem_map]
  refine exists_congr fun c => and_congr_right fun _ => ?_
  by_cases h : c.label = l <;> simp [h, eq_comm]

theorem blocks_modify_append (p : Page) (l : Nat) (f : Node → Node) :
    (p.modify l f).blocks ++ (p.modify l f).removed = modifyBlocks l f (p.blocks ++ p.removed) := by
  simp only [modify, modifyBlocks, List.map_append]

theorem wellLabelled_modify {p : Page} (h : p.WellLabelled) (l : Nat) (f : Node → Node) :
    (p.modify l f).WellLabelled := by
  constructor
  · rw [blocks_modify_append, labels_modifyBlocks]
    exact h.nodup
  · intro b hb
    rw [blocks_modify_append, mem_modifyBlocks] at hb
    obtain ⟨c, hc, rfl⟩ := hb
    exact h.below c hc

theorem find?_modifyBlocks (l k : Nat) (f : Node → Node) (bs : List Block) :
    (modifyBlocks l f bs).find? (fun b => b.label == k) =
      (bs.find? fun b => b.label == k).map fun b =>
        if b.label = l then { b with node := f b.node } else b := by
  rw [modifyBlocks, List.find?_map]
  congr 2
  funext b
  simp only [Function.comp]
  split <;> rfl

/-- A change of one block is seen there and nowhere else. -/
theorem node?_modify (p : Page) (l k : Nat) (f : Node → Node) :
    (p.modify l f).node? k = if k = l then (p.node? k).map f else p.node? k := by
  rw [node?, blocks_modify_append, find?_modifyBlocks, node?, Option.map_map]
  cases hb : (p.blocks ++ p.removed).find? fun b => b.label == k with
  | none => simp
  | some b =>
    have hl : b.label = k := by simpa using List.find?_some hb
    by_cases hkl : k = l <;> simp [hl, hkl]

theorem node?_eq_some_iff {p : Page} (h : p.WellLabelled) {l : Nat} {n : Node} :
    p.node? l = some n ↔ ⟨l, n⟩ ∈ p.blocks ++ p.removed := by
  rw [node?, Option.map_eq_some_iff]
  constructor
  · rintro ⟨b, hb, rfl⟩
    have hl : b.label = l := by simpa using List.find?_some hb
    exact hl ▸ List.mem_of_find?_eq_some hb
  · intro hm
    have hsome : ((p.blocks ++ p.removed).find? fun b => b.label == l).isSome :=
      List.find?_isSome.2 ⟨_, hm, beq_self_eq_true l⟩
    obtain ⟨b, hb⟩ := Option.isSome_iff_exists.1 hsome
    have hl : b.label = l := by simpa using List.find?_some hb
    have := eq_of_label_eq h (List.mem_of_find?_eq_some hb) hm hl
    exact ⟨b, hb, this ▸ rfl⟩

theorem modifyBlocks_of_ne {l : Nat} (f : Node → Node) {bs : List Block}
    (h : ∀ b ∈ bs, b.label ≠ l) : modifyBlocks l f bs = bs := by
  rw [modifyBlocks]
  conv => rhs; rw [← List.map_id bs]
  exact List.map_congr_left fun b hb => if_neg (h b hb)

theorem label_ne_at {p : Page} (h : p.WellLabelled) {before after : List Block} {b : Block}
    (hb : p.blocks = before ++ b :: after) :
    (∀ c ∈ before, c.label ≠ b.label) ∧ ∀ c ∈ after ++ p.removed, c.label ≠ b.label := by
  have hnodup := h.nodup
  rw [hb, List.append_assoc, List.cons_append, labels, List.map_append, List.map_cons,
    List.nodup_append] at hnodup
  obtain ⟨-, hlast, hapart⟩ := hnodup
  constructor
  · exact fun c hc => hapart _ (List.mem_map_of_mem hc) _ List.mem_cons_self
  · exact fun c hc hl => (List.nodup_cons.1 hlast).1 (hl ▸ List.mem_map_of_mem hc)

/-- A change of one block leaves the rest of the row, and what is aside. -/
theorem modify_at {p : Page} (h : p.WellLabelled) {before after : List Block} {b : Block}
    (hb : p.blocks = before ++ b :: after) (f : Node → Node) :
    p.modify b.label f = { p with blocks := before ++ { b with node := f b.node } :: after } := by
  obtain ⟨hbefore, hrest⟩ := label_ne_at h hb
  have hblocks : modifyBlocks b.label f p.blocks =
      before ++ { b with node := f b.node } :: after := by
    rw [hb, modifyBlocks, List.map_append, List.map_cons, if_pos rfl, ← modifyBlocks,
      ← modifyBlocks, modifyBlocks_of_ne f hbefore,
      modifyBlocks_of_ne f fun c hc => hrest c (List.mem_append_left _ hc)]
  rw [modify, hblocks, modifyBlocks_of_ne f fun c hc => hrest c (List.mem_append_right _ hc)]

/-- Changes that do not interfere with each other can be made in either order. -/
theorem modify_comm (p : Page) (l k : Nat) {f g : Node → Node} (h : ∀ n, f (g n) = g (f n)) :
    (p.modify l f).modify k g = (p.modify k g).modify l f := by
  have hblocks : ∀ bs, modifyBlocks k g (modifyBlocks l f bs) =
      modifyBlocks l f (modifyBlocks k g bs) := by
    intro bs
    rw [modifyBlocks, modifyBlocks, modifyBlocks, modifyBlocks, List.map_map, List.map_map]
    refine List.map_congr_left fun b _ => ?_
    simp only [Function.comp]
    by_cases hl : b.label = l
    · by_cases hk : b.label = k
      · simp only [if_pos hl, if_pos hk, h]
      · simp only [if_pos hl, if_neg hk]
    · by_cases hk : b.label = k
      · simp only [if_neg hl, if_pos hk]
      · simp only [if_neg hl, if_neg hk]
  rw [modify, modify, modify, modify, hblocks, hblocks]

/-! ## New content in every block -/

/-- A row of blocks with other content, one node for each. -/
def renew (bs : List Block) (ns : List Node) : List Block :=
  bs.zipWith (fun b n => { b with node := n }) ns

theorem renew_cons (b : Block) (bs : List Block) (n : Node) (ns : List Node) :
    renew (b :: bs) (n :: ns) = ⟨b.label, n⟩ :: renew bs ns :=
  rfl

theorem renew_append {bs : List Block} {ns : List Node} (h : ns.length = bs.length)
    (cs : List Block) (ms : List Node) : renew (bs ++ cs) (ns ++ ms) = renew bs ns ++ renew cs ms :=
  List.zipWith_append h.symm

theorem map_node_renew {bs : List Block} {ns : List Node} (h : ns.length = bs.length) :
    (renew bs ns).map (·.node) = ns := by
  induction bs generalizing ns with
  | nil => rw [List.eq_nil_of_length_eq_zero h]; rfl
  | cons b rest ih =>
    cases ns with
    | nil => cases h
    | cons n ns => rw [renew_cons, List.map_cons, ih (Nat.succ.inj h)]

theorem labels_renew {bs : List Block} {ns : List Node} (h : ns.length = bs.length) :
    labels (renew bs ns) = labels bs := by
  induction bs generalizing ns with
  | nil => rfl
  | cons b rest ih =>
    cases ns with
    | nil => cases h
    | cons n ns =>
      have hrest := ih (Nat.succ.inj h)
      rw [labels, labels] at hrest ⊢
      rw [renew_cons, List.map_cons, List.map_cons, hrest]

theorem wellLabelled_renew {p : Page} (h : p.WellLabelled) {ns : List Node}
    (hlength : ns.length = p.blocks.length) :
    ({ p with blocks := renew p.blocks ns } : Page).WellLabelled := by
  have hlabels : labels (renew p.blocks ns ++ p.removed) = labels (p.blocks ++ p.removed) := by
    have hrenew := labels_renew hlength
    rw [labels, labels] at hrenew ⊢
    rw [List.map_append, List.map_append, hrenew]
  refine ⟨hlabels ▸ h.nodup, fun b hb => ?_⟩
  have hmem : b.label ∈ labels (p.blocks ++ p.removed) := hlabels ▸ List.mem_map_of_mem hb
  obtain ⟨c, hc, heq⟩ := List.mem_map.1 hmem
  exact heq ▸ h.below c hc

theorem nodes_withNodes {p : Page} {ns : List Node} (h : ns.length = p.blocks.length) :
    (p.withNodes ns).nodes = ns :=
  map_node_renew h

theorem getElem?_withNodes {p : Page} {ns : List Node} {i : Nat} {b : Block} {n : Node}
    (hb : p.blocks[i]? = some b) (hn : ns[i]? = some n) :
    (p.withNodes ns).blocks[i]? = some ⟨b.label, n⟩ := by
  simp [withNodes, List.getElem?_zipWith, hb, hn]

/-! ## Blocks put in and taken off -/

theorem perm_insertAt (p : Page) (position : Nat) (new : List Node) :
    ((p.insertAt position new).blocks ++ (p.insertAt position new).removed).Perm
      (label p.nextLabel new ++ (p.blocks ++ p.removed)) := by
  have hsplit := List.take_append_drop position p.blocks
  have hmove : (p.blocks.take position ++ label p.nextLabel new ++ p.blocks.drop position).Perm
      (label p.nextLabel new ++ p.blocks) := by
    conv => rhs; rw [← hsplit]
    rw [← List.append_assoc]
    exact List.Perm.append_right _ List.perm_append_comm
  rw [← List.append_assoc]
  exact hmove.append_right _

theorem wellLabelled_insertAt {p : Page} (h : p.WellLabelled) (position : Nat) (new : List Node) :
    (p.insertAt position new).WellLabelled := by
  have hperm := perm_insertAt p position new
  constructor
  · refine (hperm.map (·.label)).nodup_iff.2 ?_
    rw [List.map_append, List.nodup_append]
    refine ⟨?_, h.nodup, ?_⟩
    · have := labels_label p.nextLabel new
      rw [labels] at this
      rw [this]
      exact List.nodup_range'
    · rintro l hl k hk rfl
      obtain ⟨b, hb, rfl⟩ := List.mem_map.1 hl
      obtain ⟨c, hc, hbc⟩ := List.mem_map.1 hk
      have := (label_mem_range hb).1
      have := h.below c hc
      omega
  · intro b hb
    rcases List.mem_append.1 (hperm.mem_iff.1 hb) with hb | hb
    · exact (label_mem_range hb).2
    · have := h.below b hb
      simp only [insertAt]
      omega

theorem mem_blocks_insertAt {p : Page} {position : Nat} {new : List Node} {b : Block} :
    b ∈ (p.insertAt position new).blocks ↔ b ∈ p.blocks ∨ b ∈ label p.nextLabel new := by
  have hsplit := List.take_append_drop position p.blocks
  rw [insertAt, List.mem_append, List.mem_append, or_right_comm, ← List.mem_append, hsplit]

/-- A block that is on the page already may be changed before or after others are put in. -/
theorem insertAt_modify {p : Page} {l : Nat} (hl : l < p.nextLabel) (f : Node → Node)
    (position : Nat) (new : List Node) :
    (p.modify l f).insertAt position new = (p.insertAt position new).modify l f := by
  have hnew : modifyBlocks l f (label p.nextLabel new) = label p.nextLabel new :=
    modifyBlocks_of_ne f fun b hb => by
      have := (label_mem_range hb).1
      omega
  have hblocks : modifyBlocks l f (p.blocks.take position ++ label p.nextLabel new ++
      p.blocks.drop position) = (modifyBlocks l f p.blocks).take position ++
        label p.nextLabel new ++ (modifyBlocks l f p.blocks).drop position := by
    conv => rhs; rw [← hnew]
    simp only [modifyBlocks, List.map_append, List.map_take, List.map_drop]
  simp only [insertAt, modify, hblocks]

/-- What is put in leaves the content of other blocks. -/
theorem node?_insertAt {p : Page} (h : p.WellLabelled) {l : Nat} {n : Node}
    (hn : p.node? l = some n) (position : Nat) (new : List Node) : (p.insertAt position new).node? l = some n := by
  rw [node?_eq_some_iff h] at hn
  rw [node?_eq_some_iff (wellLabelled_insertAt h position new),
    (perm_insertAt p position new).mem_iff]
  exact List.mem_append_right _ hn

theorem perm_keep (p : Page) (test : Node → Bool) :
    ((p.keep test).blocks ++ (p.keep test).removed).Perm (p.blocks ++ p.removed) := by
  have hfilter := List.filter_append_perm (fun b : Block => test b.node) p.blocks
  simp only [keep]
  refine (List.Perm.append_left _ List.perm_append_comm).trans ?_
  rw [← List.append_assoc]
  exact hfilter.append_right _

theorem wellLabelled_of_perm {p q : Page} (h : p.WellLabelled)
    (hperm : (q.blocks ++ q.removed).Perm (p.blocks ++ p.removed))
    (hnext : q.nextLabel = p.nextLabel) : q.WellLabelled := by
  constructor
  · rw [labels, (hperm.map _).nodup_iff]
    exact h.nodup
  · exact fun b hb => hnext ▸ h.below b (hperm.mem_iff.1 hb)

theorem wellLabelled_keep {p : Page} (h : p.WellLabelled) (test : Node → Bool) :
    (p.keep test).WellLabelled :=
  wellLabelled_of_perm h (perm_keep p test) rfl

theorem eq_of_removeAt? {p q : Page} {position : Nat} (h : p.removeAt? position = some q) :
    ∃ b, p.blocks[position]? = some b ∧
      q = { p with blocks := p.blocks.eraseIdx position, removed := p.removed ++ [b] } := by
  unfold removeAt? at h
  split at h
  · cases h
  · rename_i b hb
    exact ⟨b, hb, (Option.some.inj h).symm⟩

/-- A block that is taken off is kept aside. -/
theorem perm_removeAt? {p q : Page} {position : Nat} (h : p.removeAt? position = some q) :
    (q.blocks ++ q.removed).Perm (p.blocks ++ p.removed) := by
  obtain ⟨b, hb, rfl⟩ := eq_of_removeAt? h
  obtain ⟨hlt, rfl⟩ := List.getElem?_eq_some_iff.1 hb
  have hmove : (p.blocks.eraseIdx position ++ [p.blocks[position]]).Perm p.blocks :=
    List.perm_append_comm.trans (List.getElem_cons_eraseIdx_perm hlt)
  refine (List.Perm.append_left _ List.perm_append_comm).trans ?_
  rw [← List.append_assoc]
  exact hmove.append_right _

theorem wellLabelled_removeAt? {p q : Page} (hp : p.WellLabelled) {position : Nat}
    (h : p.removeAt? position = some q) : q.WellLabelled := by
  refine wellLabelled_of_perm hp (perm_removeAt? h) ?_
  obtain ⟨b, -, rfl⟩ := eq_of_removeAt? h
  rfl

/-- So every block is found with the content it had. -/
theorem node?_removeAt? {p q : Page} (hp : p.WellLabelled) {position : Nat}
    (h : p.removeAt? position = some q) (l : Nat) : q.node? l = p.node? l := by
  apply Option.ext
  intro n
  rw [node?_eq_some_iff hp, node?_eq_some_iff (wellLabelled_removeAt? hp h),
    (perm_removeAt? h).mem_iff]

end RouteDocs.Page
