import RouteDocs.Catalog
import RouteDocs.Proofs.Entries
import RouteDocs.Proofs.Page

/-!
# The catalog as a row of placed lists

`placed` names every definition list of a row of blocks together with its
place, in order. The catalog files the first of each place, so its look-up is
that of the row, and what an edit does to the catalog is read off the row.

Results:
* `get?_ofPage`: the catalog's look-up is that of the placed lists.
* `placed_modifyBlocks`: a block may change as long as it keeps its role.
* `placed_filter`: blocks without a role may go.
* `get?_placed_splice`: what a list put in between other blocks does to the look-up.
-/
namespace RouteDocs

namespace Node

theorem closing_of_endsSection {n : Node} (h : n.endsSection = true) (h3 : n.isA .head3 = false) :
    n.isA .head1 = true ∨ n.isA .head2 = true := by
  rcases endsSection_iff.1 h with h | h | h
  · exact .inl h
  · exact .inr h
  · rw [h3] at h
    cases h

theorem isA_head3_of_not_end {n : Node} (h : n.endsSection = false) : n.isA .head3 = false := by
  refine Bool.eq_false_iff.2 fun h3 => ?_
  rw [endsSection_iff.2 (.inr (.inr h3))] at h
  cases h

end Node

namespace Place

theorem after_closing {n : Node} (h : n.isA .head1 = true ∨ n.isA .head2 = true) (p : Place) :
    p.after n = start := by
  rcases h with h | h
  · rw [after, Node.isA_iff_kind?.1 h]
  · rw [after, Node.isA_iff_kind?.1 h]

theorem after_head3 {n : Node} (h : n.isA .head3 = true) (p : Place) :
    p.after n = ⟨some n.flatten, none⟩ := by
  rw [after, Node.isA_iff_kind?.1 h]

theorem after_head4 {n : Node} (h : n.isA .head4 = true) (p : Place) :
    p.after n = ⟨p.routeSection, some n.flatten⟩ := by
  rw [after, Node.isA_iff_kind?.1 h]

theorem after_of_no_heading {n : Node} (h : n.endsSection = false) (h4 : n.isA .head4 = false)
    (p : Place) : p.after n = p := by
  unfold Node.endsSection at h
  unfold Node.isA at h4
  unfold after
  cases hk : n.kind? with
  | none => rfl
  | some k => cases k <;> simp_all [Kind.endsSection]

theorem after_of_isA {n : Node} {k : Kind} (h : n.isA k = true) (hk : k.headingLevel = none)
    (p : Place) : p.after n = p := by
  have hne : ∀ l, Kind.headingLevel l ≠ none → n.isA l = false := by
    intro l hl
    refine Node.isA_eq_false h ?_
    rintro rfl
    exact hl hk
  refine after_of_no_heading (Bool.eq_false_iff.2 fun hend => ?_) (hne .head4 nofun) p
  rcases Node.endsSection_iff.1 hend with h' | h' | h'
  · rw [hne .head1 nofun] at h'
    cases h'
  · rw [hne .head2 nofun] at h'
    cases h'
  · rw [hne .head3 nofun] at h'
    cases h'

theorem after_endsSection {n : Node} (h : n.endsSection = true) (p q : Place) :
    p.after n = q.after n := by
  by_cases h3 : n.isA .head3 = true
  · rw [after_head3 h3, after_head3 h3]
  · have hclosing := Node.closing_of_endsSection h (Bool.eq_false_iff.2 h3)
    rw [after_closing hclosing, after_closing hclosing]

theorem subsection_after_endsSection {n : Node} (h : n.endsSection = true) (p : Place) :
    (p.after n).subsection = none := by
  by_cases h3 : n.isA .head3 = true
  · rw [after_head3 h3]
  · rw [after_closing (Node.closing_of_endsSection h (Bool.eq_false_iff.2 h3))]
    rfl

theorem routeSection_after {n : Node} (h : n.endsSection = false) (p : Place) :
    (p.after n).routeSection = p.routeSection := by
  by_cases h4 : n.isA .head4 = true
  · rw [after_head4 h4]
  · rw [after_of_no_heading h (Bool.eq_false_iff.2 h4)]

/-- Which section follows does not turn on the subsection. -/
theorem routeSection_after_congr {p q : Place} (h : p.routeSection = q.routeSection) (n : Node) :
    (p.after n).routeSection = (q.after n).routeSection := by
  cases hends : n.endsSection with
  | true => rw [after_endsSection hends p q]
  | false => rw [routeSection_after hends, routeSection_after hends, h]

theorem afterAll_append (p : Place) (ns ms : List Node) :
    p.afterAll (ns ++ ms) = (p.afterAll ns).afterAll ms :=
  List.foldl_append

end Place

namespace Catalog

/-- The definition lists among blocks that follow a place, each under its own place. -/
def placed (p : Place) : List Block → Entries Place Nat
  | [] => []
  | b :: rest =>
    (if b.node.isA .definitionList then [(p, b.label)] else []) ++ placed (p.after b.node) rest

theorem placed_append (p : Place) (bs cs : List Block) :
    placed p (bs ++ cs) = placed p bs ++ placed (p.afterAll (bs.map (·.node))) cs := by
  induction bs generalizing p with
  | nil => rfl
  | cons b rest ih =>
    rw [List.cons_append, placed, ih, placed, List.append_assoc]
    rfl

theorem mem_placed {p k : Place} {l : Nat} {bs : List Block} (h : (k, l) ∈ placed p bs) :
    ∃ b ∈ bs, b.label = l ∧ b.node.isA .definitionList = true := by
  induction bs generalizing p with
  | nil => cases h
  | cons b rest ih =>
    rw [placed, List.mem_append] at h
    rcases h with h | h
    · split at h
      · rename_i hb
        cases List.mem_singleton.1 h
        exact ⟨b, List.mem_cons_self, rfl, hb⟩
      · cases h
    · obtain ⟨c, hc, hcl⟩ := ih h
      exact ⟨c, List.mem_cons_of_mem _ hc, hcl⟩

theorem sublist_placed (p : Place) (bs : List Block) :
    ((placed p bs).map Prod.snd).Sublist (Page.labels bs) := by
  induction bs generalizing p with
  | nil => exact List.Sublist.refl []
  | cons b rest ih =>
    rw [placed, Page.labels, List.map_cons, ← Page.labels]
    split
    · exact (ih _).cons_cons b.label
    · exact (ih _).cons b.label

theorem place_eq_of_mem_placed {p : Place} {bs : List Block} (h : (Page.labels bs).Nodup)
    {k k' : Place} {l : Nat} (hk : (k, l) ∈ placed p bs) (hk' : (k', l) ∈ placed p bs) : k = k' :=
  congrArg Prod.fst (List.inj_on_of_nodup_map ((sublist_placed p bs).nodup h) hk hk' rfl)

theorem get?_file (c : Catalog) (p : Place) (b : Block) (k : Place) :
    Entries.get? (file c p b) k =
      (Entries.get? c k).or
        (Entries.get? (if b.node.isA .definitionList then [(p, b.label)] else []) k) := by
  unfold file
  split
  · rw [Entries.get?_putNew]
    rfl
  · simp [Entries.get?]

theorem get?_fileAll (c : Catalog) (p : Place) (bs : List Block) (k : Place) :
    Entries.get? (fileAll c p bs) k = (Entries.get? c k).or (Entries.get? (placed p bs) k) := by
  induction bs generalizing c p with
  | nil => simp [fileAll, placed, Entries.get?]
  | cons b rest ih => rw [fileAll, ih, get?_file, placed, Entries.get?_append, Option.or_assoc]

/-- The catalog of a page answers as its placed lists do. -/
theorem get?_ofPage (p : Page) (k : Place) :
    Entries.get? (ofPage p) k = Entries.get? (placed Place.start p.blocks) k := by
  rw [ofPage, get?_fileAll]
  rfl

theorem fileAll_eq_foldl (c : Catalog) (p : Place) (bs : List Block) :
    fileAll c p bs = (placed p bs).foldl (fun c entry => Entries.putNew c entry.1 entry.2) c := by
  induction bs generalizing c p with
  | nil => rfl
  | cons b rest ih =>
    rw [fileAll, ih, placed, List.foldl_append, file]
    split <;> rfl

theorem ofPage_congr {p q : Page} (h : placed Place.start p.blocks = placed Place.start q.blocks) :
    ofPage p = ofPage q := by
  rw [ofPage, ofPage, fileAll_eq_foldl, fileAll_eq_foldl, h]

/-! ## Edits that the catalog does not see -/

/-- Two nodes that the catalog cannot tell apart. -/
structure SameRole (n m : Node) : Prop where
  isList : n.isA .definitionList = m.isA .definitionList
  after : ∀ p : Place, p.after n = p.after m

/-- A node that the catalog does not see: neither a list nor a heading. -/
structure NoRole (n : Node) : Prop where
  isList : n.isA .definitionList = false
  after : ∀ p : Place, p.after n = p

theorem noRole_of_isA {n : Node} {k : Kind} (h : n.isA k = true) (hl : k ≠ .definitionList)
    (hk : k.headingLevel = none) : NoRole n :=
  ⟨Node.isA_eq_false h hl, Place.after_of_isA h hk⟩

theorem sameRole_of_lists {n m : Node} (hn : n.isA .definitionList = true)
    (hm : m.isA .definitionList = true) : SameRole n m :=
  ⟨hn.trans hm.symm, fun p => (Place.after_of_isA hn rfl p).trans (Place.after_of_isA hm rfl p).symm⟩

theorem placed_modifyBlocks {l : Nat} {f : Node → Node} {bs : List Block}
    (h : ∀ b ∈ bs, b.label = l → SameRole (f b.node) b.node) (p : Place) :
    placed p (Page.modifyBlocks l f bs) = placed p bs := by
  induction bs generalizing p with
  | nil => rfl
  | cons b rest ih =>
    have hrest := fun p => ih (fun c hc => h c (List.mem_cons_of_mem _ hc)) p
    simp only [Page.modifyBlocks] at hrest
    rw [Page.modifyBlocks, List.map_cons, placed, placed, hrest]
    by_cases hb : b.label = l
    · have hrole := h b List.mem_cons_self hb
      simp only [hb, if_pos, hrole.isList, hrole.after]
    · simp only [hb, if_neg, not_false_eq_true]

theorem placed_filter {test : Block → Bool} {bs : List Block}
    (h : ∀ b ∈ bs, test b = false → NoRole b.node) (p : Place) :
    placed p (bs.filter test) = placed p bs := by
  induction bs generalizing p with
  | nil => rfl
  | cons b rest ih =>
    have hrest := fun p => ih (fun c hc => h c (List.mem_cons_of_mem _ hc)) p
    cases hb : test b with
    | true => rw [List.filter_cons_of_pos hb, placed, placed, hrest]
    | false =>
      have hrole := h b List.mem_cons_self hb
      rw [List.filter_cons_of_neg (by simp [hb]), hrest, placed, hrole.isList, hrole.after]
      rfl

/-! ## A list put in -/

theorem placed_congr {p q : Place} (hpq : p.routeSection = q.routeSection) {bs : List Block}
    (h : ∀ b, bs.head? = some b → b.node.endsSection = true ∨ b.node.isA .head4 = true) :
    placed p bs = placed q bs := by
  cases bs with
  | nil => rfl
  | cons b rest =>
    have hafter : p.after b.node = q.after b.node := by
      rcases h b rfl with hb | hb
      · exact Place.after_endsSection hb p q
      · rw [Place.after_head4 hb, Place.after_head4 hb, hpq]
    have hlist : b.node.isA .definitionList = false := by
      rcases h b rfl with hb | hb
      · rcases Node.endsSection_iff.1 hb with hb | hb | hb
        · exact Node.isA_eq_false hb nofun
        · exact Node.isA_eq_false hb nofun
        · exact Node.isA_eq_false hb nofun
      · exact Node.isA_eq_false hb nofun
    rw [placed, placed, hafter, hlist]
    rfl

/-- Blocks put in between others that file one list, under a place that has none, and leave
what follows as it was: every other place keeps its list. -/
theorem get?_placed_splice {p k : Place} {l : Nat} {before new after : List Block}
    (hnone : Entries.get? (placed p (before ++ after)) k = none)
    (hnew : placed (p.afterAll (before.map (·.node))) new = [(k, l)])
    (hafter : placed ((p.afterAll (before.map (·.node))).afterAll (new.map (·.node))) after =
      placed (p.afterAll (before.map (·.node))) after) (k' : Place) :
    Entries.get? (placed p (before ++ new ++ after)) k' =
      (Entries.get? (placed p (before ++ after)) k').or (if k = k' then some l else none) := by
  rw [placed_append, Entries.get?_append, Option.or_eq_none_iff] at hnone
  rw [placed_append, placed_append, List.map_append, Place.afterAll_append, hafter, hnew,
    placed_append, Entries.get?_append, Entries.get?_append, Entries.get?_append]
  simp only [Entries.get?]
  by_cases hk : k = k'
  · subst hk
    simp [hnone.1, hnone.2]
  · simp [hk]

end Catalog
end RouteDocs
