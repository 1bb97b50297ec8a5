import RouteDocs.Proofs.Heading.Tree

/-!
# The route headings of a page

The index lists the headings that it finds in the whole page: in its blocks, or
the page itself if that is a heading. The routes are the headings among the
blocks. Here the two are compared: what they are given in either order, and
whether they are the same headings at all.

Results:
* `fill_pageSlots_listed`, `fill_pageSlots_tops`: what index and routes fill.
* `anchored_eq_iff`: when the order of the two makes no difference to the page.
* `found_eq_tops_iff`, `anchors_found_eq_tops_iff`: when the index lists the very routes.
-/
namespace RouteDocs.Heading

open Html.Navigation (isHeading isGroup)

/-- The headings of routes among the blocks of a page. -/
def tops (n : Node) : List Node :=
  n.children.filter (Node.isA .head3)

/-- The headings that the index finds and that are not among the blocks of the page. -/
def elsewhere : Node → List Node
  | .text _ => []
  | .element name as cs =>
    if isHeading name then found (.element name as cs)
    else (cs.filter fun n => !n.isA .head3).flatMap found

/-- The slots of a page: those of the headings found and those of the headings among its blocks. -/
def pageSlots : Node → List Slot
  | .text _ => []
  | .element name as cs =>
    (if isHeading name then slots false (.element name as cs) else []) ++
      blockSlots (!isHeading name) cs

/-- The slots of the headings that the index finds. -/
def listed : Node → Bool → Bool
  | .text _ => Slot.all
  | .element name _ _ => if isHeading name then Slot.others else Slot.all

/-- A page on which the headings among the blocks have their anchors. -/
def anchorRoutes (ids : Identifiers) : Node → Node × Identifiers
  | .text s => (.text s, ids)
  | .element name as cs => (.element name as (anchorTops ids cs).1, (anchorTops ids cs).2)

/-! ## What is filled -/

section
variable {name : String} {as : Attributes} {cs : List Node} {ids : Identifiers}

theorem pageSlots_heading (h : isHeading name = true) :
    pageSlots (.element name as cs) = slots false (.element name as cs) ++ blockSlots false cs := by
  rw [pageSlots, if_pos h, h]
  rfl

theorem pageSlots_other (h : isHeading name = false) :
    pageSlots (.element name as cs) = blockSlots true cs := by
  rw [pageSlots, if_neg (by simp [h]), h]
  rfl

theorem listed_heading (h : isHeading name = true) : listed (.element name as cs) = Slot.others := by
  rw [listed, if_pos h]

theorem listed_other (h : isHeading name = false) : listed (.element name as cs) = Slot.all := by
  rw [listed, if_neg (by simp [h])]

/-- Of a page that is a heading only its text counts for its own slot. -/
theorem slots_heading {top : Bool} (h : isHeading name = true) {cs' : List Node}
    (htext : Node.flattenAll cs' = Node.flattenAll cs) :
    slots top (.element name as cs') = slots top (.element name as cs) := by
  cases hgroup : isGroup name with
  | true => rw [slots, slots, found_group h hgroup, found_group h hgroup]
  | false =>
    rw [slots, slots, found_route h hgroup, found_route h hgroup, List.map_singleton,
      List.map_singleton, Slot.of, Slot.of, Node.flatten, Node.flatten, htext]
    rfl

theorem anchorFound_heading (h : isHeading name = true) (ids : Identifiers) (as : Attributes)
    (cs : List Node) : ∃ as', (anchorFound ids (.element name as cs)).1 = .element name as' cs := by
  cases hgroup : isGroup name with
  | true => exact ⟨as, by rw [anchorFound_group h hgroup]⟩
  | false =>
    refine ⟨(Anchor.ensure ids (Node.flattenAll cs) as).1, ?_⟩
    rw [anchorFound_route h hgroup]
    rfl

theorem top_of_mem_blockSlots {ns : List Node} {s : Slot} (hs : s ∈ blockSlots false ns) :
    s.top = true := by
  obtain ⟨n, -, hs⟩ := List.mem_flatMap.1 hs
  split at hs
  · exact top_of_mem_slots hs
  · rw [if_neg Bool.false_ne_true] at hs
    cases hs

end

theorem listed_anchorFound (ids : Identifiers) (n : Node) :
    listed (anchorFound ids n).1 = listed n := by
  cases n with
  | text s => rfl
  | element name as cs =>
    cases h : isHeading name with
    | true =>
      obtain ⟨as', heq⟩ := anchorFound_heading h ids as cs
      rw [heq, listed, listed]
    | false => rw [anchorFound_other h, listed, listed]

theorem listed_anchorRoutes (ids : Identifiers) (n : Node) :
    listed (anchorRoutes ids n).1 = listed n := by
  cases n <;> rfl

/-- The index fills the slots that it lists. -/
theorem fill_pageSlots_listed (ids : Identifiers) (n : Node) :
    Slot.fill (listed n) ids (pageSlots n) =
      (pageSlots (anchorFound ids n).1, (anchorFound ids n).2) := by
  cases n with
  | text s => rfl
  | element name as cs =>
    cases h : isHeading name with
    | true =>
      have hleft : ∀ ids, Slot.fill Slot.others ids (blockSlots false cs) =
          (blockSlots false cs, ids) := fun ids =>
        Slot.fill_of_filled (fun s hs hw => by
          rw [Slot.others, top_of_mem_blockSlots hs] at hw
          cases hw) ids
      obtain ⟨as', heq⟩ := anchorFound_heading h ids as cs
      rw [listed_heading h, pageSlots_heading h, Slot.fill_append, fill_slots Slot.others rfl, hleft,
        heq, pageSlots_heading h]
    | false =>
      rw [listed_other h, pageSlots_other h, fill_blockSlots_all, anchorFound_other h,
        pageSlots_other h]

/-- The routes fill the slots at the top. -/
theorem fill_pageSlots_tops (ids : Identifiers) (n : Node) :
    Slot.fill Slot.tops ids (pageSlots n) =
      (pageSlots (anchorRoutes ids n).1, (anchorRoutes ids n).2) := by
  cases n with
  | text s => rfl
  | element name as cs =>
    have htops : ∀ ids, Slot.fill Slot.tops ids (blockSlots (!isHeading name) cs) =
        (blockSlots (!isHeading name) (anchorTops ids cs).1, (anchorTops ids cs).2) :=
      fun ids => fill_blockSlots_tops rfl (fun _ => rfl) ids cs
    have hkept : ∀ ids, Slot.fill Slot.tops ids
        (if isHeading name then slots false (.element name as cs) else []) =
          (if isHeading name then slots false (.element name as cs) else [], ids) :=
      fun ids => fill_inside (fun _ => rfl) ids _
    have hslots :
        (if isHeading name then slots false (.element name as (anchorTops ids cs).1) else []) =
          if isHeading name then slots false (.element name as cs) else [] := by
      cases h : isHeading name with
      | true => exact slots_heading h (flattenAll_anchorTops ids cs)
      | false => rfl
    rw [pageSlots, Slot.fill_append, hkept, htops, anchorRoutes, pageSlots, hslots]

theorem fallback_anchorRoutes (ids : Identifiers) (n : Node) :
    (anchorRoutes ids n).2.fallback = ids.fallback := by
  cases n with
  | text s => rfl
  | element name as cs => exact fallback_anchorTops ids cs

theorem filled_anchorRoutes (ids : Identifiers) (n : Node) :
    Slot.Filled Slot.tops (pageSlots (anchorRoutes ids n).1) := by
  have hfilled := Slot.filled_fill Slot.tops ids (pageSlots n)
  rwa [fill_pageSlots_tops] at hfilled

theorem distinct_anchorRoutes {ids : Identifiers} {n : Node} (h : Slot.Distinct ids (pageSlots n)) :
    Slot.Distinct (anchorRoutes ids n).2 (pageSlots (anchorRoutes ids n).1) := by
  have hdistinct := h.fill Slot.tops
  rwa [fill_pageSlots_tops] at hdistinct

theorem distinct_anchorFound {ids : Identifiers} {n : Node} (h : Slot.Distinct ids (pageSlots n)) :
    Slot.Distinct (anchorFound ids n).2 (pageSlots (anchorFound ids n).1) := by
  have hdistinct := h.fill (listed n)
  rwa [fill_pageSlots_listed] at hdistinct

/-! ## The two orders -/

theorem pageSlots_routes_first (ids : Identifiers) (n : Node) :
    pageSlots (anchorFound (anchorRoutes ids n).2 (anchorRoutes ids n).1).1 =
      (Slot.fill Slot.all (Slot.fill Slot.tops ids (pageSlots n)).2
        (Slot.fill Slot.tops ids (pageSlots n)).1).1 := by
  have hfilled := Slot.filled_fill Slot.tops ids (pageSlots n)
  have hindex : pageSlots (anchorFound (anchorRoutes ids n).2 (anchorRoutes ids n).1).1 =
      (Slot.fill (listed n) (Slot.fill Slot.tops ids (pageSlots n)).2
        (Slot.fill Slot.tops ids (pageSlots n)).1).1 := by
    rw [fill_pageSlots_tops, ← listed_anchorRoutes ids n, fill_pageSlots_listed]
  rw [hindex]
  cases n with
  | text s => rfl
  | element name as cs =>
    cases h : isHeading name with
    | true => rw [listed_heading h, Slot.fill_others_of_filled hfilled]
    | false => rw [listed_other h]

theorem fill_index_first (ids : Identifiers) (n : Node) :
    Slot.fill Slot.all ids (pageSlots n) =
      (pageSlots (anchorRoutes (anchorFound ids n).2 (anchorFound ids n).1).1,
        (anchorRoutes (anchorFound ids n).2 (anchorFound ids n).1).2) := by
  have hroutes := fill_pageSlots_tops (anchorFound ids n).2 (anchorFound ids n).1
  have hlisted := fill_pageSlots_listed ids n
  rw [← hroutes]
  cases n with
  | text s => rfl
  | element name as cs =>
    cases h : isHeading name with
    | true =>
      rw [listed_heading h, pageSlots_heading h] at hlisted
      rw [pageSlots_heading h, ← Slot.fill_tops_after_others (fun _ => top_of_mem_slots)
        (fun _ => top_of_mem_blockSlots) ids, hlisted]
    | false =>
      rw [listed_other h] at hlisted
      have hfilled := Slot.filled_fill Slot.all ids (pageSlots (.element name as cs))
      rw [hlisted] at hfilled
      rw [hlisted, Slot.fill_of_filled fun s hs _ => hfilled s hs rfl]

theorem pageSlots_index_first (ids : Identifiers) (n : Node) :
    pageSlots (anchorRoutes (anchorFound ids n).2 (anchorFound ids n).1).1 =
      (Slot.fill Slot.all ids (pageSlots n)).1 :=
  (congrArg Prod.fst (fill_index_first ids n)).symm

theorem anchorRoutes_eq_of_slots {ids ids' : Identifiers} {n : Node}
    (heq : pageSlots (anchorRoutes ids n).1 = pageSlots (anchorRoutes ids' n).1) :
    (anchorRoutes ids n).1 = (anchorRoutes ids' n).1 := by
  cases n with
  | text s => rfl
  | element name as cs =>
    have hblocks : blockSlots (!isHeading name) (anchorTops ids cs).1 =
        blockSlots (!isHeading name) (anchorTops ids' cs).1 := by
      cases h : isHeading name with
      | true =>
        rw [anchorRoutes, anchorRoutes, pageSlots_heading h, pageSlots_heading h,
          slots_heading h (flattenAll_anchorTops ids cs),
          slots_heading h (flattenAll_anchorTops ids' cs)] at heq
        exact List.append_cancel_left heq
      | false =>
        rwa [anchorRoutes, anchorRoutes, pageSlots_other h, pageSlots_other h] at heq
    rw [anchorRoutes, anchorRoutes, anchorTops_eq_of_slots hblocks]

theorem map_blockSlots (ns : List Node) :
    (blockSlots true ns).map (fun s => { s with top := false }) =
      (ns.flatMap found).map (Slot.of false) := by
  have hslots : ∀ top n, (slots top n).map (fun s => { s with top := false }) = slots false n := by
    intro top n
    rw [slots, List.map_map, slots]
    rfl
  induction ns with
  | nil => rfl
  | cons n rest ih =>
    rw [List.flatMap_cons, List.map_append, ← ih, ← slots]
    cases h3 : n.isA .head3 with
    | true => rw [blockSlots_head3 true h3, List.map_append, hslots]
    | false => rw [blockSlots_other true h3, if_pos rfl, List.map_append, hslots]

theorem anchorFound_eq_of_pageSlots {ids ids' : Identifiers} {n : Node}
    (heq : pageSlots (anchorFound ids n).1 = pageSlots (anchorFound ids' n).1) :
    (anchorFound ids n).1 = (anchorFound ids' n).1 := by
  cases n with
  | text s => rfl
  | element name as cs =>
    cases h : isHeading name with
    | true =>
      obtain ⟨as₁, h₁⟩ := anchorFound_heading h ids as cs
      obtain ⟨as₂, h₂⟩ := anchorFound_heading h ids' as cs
      rw [h₁, h₂, pageSlots_heading h, pageSlots_heading h] at heq
      have hslots := List.append_cancel_right heq
      rw [← h₁, ← h₂] at hslots
      exact anchorFound_eq_of_slots _ hslots
    | false =>
      rw [anchorFound_other h, anchorFound_other h] at heq ⊢
      rw [pageSlots_other h, pageSlots_other h] at heq
      have hflat := congrArg (List.map fun s : Slot => { s with top := false }) heq
      rw [map_blockSlots, map_blockSlots] at hflat
      rw [anchorFoundAll_eq_of_slots cs hflat]

theorem anchored_eq_of_slots {ids : Identifiers} {n : Node}
    (heq : pageSlots (anchorFound (anchorRoutes ids n).2 (anchorRoutes ids n).1).1 =
      pageSlots (anchorRoutes (anchorFound ids n).2 (anchorFound ids n).1).1) :
    (anchorFound (anchorRoutes ids n).2 (anchorRoutes ids n).1).1 =
      (anchorRoutes (anchorFound ids n).2 (anchorFound ids n).1).1 := by
  cases n with
  | text s => rfl
  | element name as cs =>
    cases h : isHeading name with
    | true =>
      -- the index changes the attributes of the page, the routes its blocks
      cases hgroup : isGroup name with
      | true =>
        simp only [anchorRoutes, anchorFound_group h hgroup]
      | false =>
        simp only [anchorRoutes, anchorFound_route h hgroup, Anchor.ensureNode_element] at heq ⊢
        rw [pageSlots_heading h, pageSlots_heading h, slots, slots, found_route h hgroup,
          found_route h hgroup] at heq
        obtain ⟨hpage, hblocks⟩ := List.append_inj heq rfl
        have hanchor := congrArg Slot.anchor (List.cons.inj hpage).1
        rw [Anchor.ensure_eq_of_anchor hanchor, anchorTops_eq_of_slots hblocks]
    | false =>
      simp only [anchorRoutes, anchorFound_other h, anchorTops_anchorFoundAll] at heq ⊢
      rw [pageSlots_other h, pageSlots_other h] at heq
      rw [anchorFoundAll_anchorTops_eq_of_slots heq]

/-! ## The anchors of headings -/

/-- The anchors that nodes have. -/
def anchors (ns : List Node) : List Value :=
  ns.filterMap fun n => Anchor.ofAttributes? n.attributes

theorem given_slots {wanted : Bool → Bool} {top : Bool} (hw : wanted top = true) (n : Node) :
    Slot.given wanted (slots top n) = anchors (found n) := by
  rw [slots, Slot.given, List.filterMap_map, anchors]
  congr 1
  funext m
  exact if_pos hw

theorem given_slots_other {wanted : Bool → Bool} {top : Bool} (hw : wanted top = false) (n : Node) :
    Slot.given wanted (slots top n) = [] :=
  Slot.given_eq_nil fun s hs => by rw [top_of_mem_slots hs, hw]

theorem anchors_append (ns ms : List Node) : anchors (ns ++ ms) = anchors ns ++ anchors ms :=
  List.filterMap_append

theorem given_inside_tops (inside : Bool) (n : Node) :
    Slot.given Slot.tops (if inside then slots false n else []) = [] := by
  cases inside with
  | true => exact given_slots_other rfl n
  | false => rfl

theorem given_blockSlots_tops (inside : Bool) (ns : List Node) :
    Slot.given Slot.tops (blockSlots inside ns) = anchors (ns.filter (Node.isA .head3)) := by
  induction ns with
  | nil => rfl
  | cons n rest ih =>
    cases h3 : n.isA .head3 with
    | true =>
      rw [blockSlots_head3 inside h3, Slot.given_append, given_slots rfl, found_head3 h3, ih,
        List.filter_cons_of_pos h3, ← anchors_append, List.singleton_append]
    | false =>
      rw [blockSlots_other inside h3, Slot.given_append, given_inside_tops, List.nil_append, ih,
        List.filter_cons_of_neg (by simp [h3])]

theorem given_blockSlots_all (ns : List Node) :
    Slot.given Slot.all (blockSlots true ns) = anchors (ns.flatMap found) := by
  induction ns with
  | nil => rfl
  | cons n rest ih =>
    rw [List.flatMap_cons, anchors_append, ← ih]
    cases h3 : n.isA .head3 with
    | true => rw [blockSlots_head3 true h3, Slot.given_append, given_slots rfl]
    | false => rw [blockSlots_other true h3, if_pos rfl, Slot.given_append, given_slots rfl]

theorem given_blockSlots_others (ns : List Node) :
    Slot.given Slot.others (blockSlots true ns) =
      anchors ((ns.filter fun n => !n.isA .head3).flatMap found) := by
  induction ns with
  | nil => rfl
  | cons n rest ih =>
    cases h3 : n.isA .head3 with
    | true =>
      rw [blockSlots_head3 true h3, Slot.given_append, given_slots_other rfl, List.nil_append, ih,
        List.filter_cons_of_neg (by simp [h3])]
    | false =>
      rw [blockSlots_other true h3, if_pos rfl, Slot.given_append, given_slots rfl, ih,
        List.filter_cons_of_pos (by simp [h3]), List.flatMap_cons, anchors_append]

theorem given_pageSlots_listed (n : Node) :
    Slot.given (listed n) (pageSlots n) = anchors (found n) := by
  cases n with
  | text s => rfl
  | element name as cs =>
    cases h : isHeading name with
    | true =>
      have hblocks : Slot.given Slot.others (blockSlots false cs) = [] :=
        Slot.given_eq_nil fun s hs => by rw [top_of_mem_blockSlots hs]; rfl
      rw [listed_heading h, pageSlots_heading h, Slot.given_append, given_slots rfl, hblocks,
        List.append_nil]
    | false => rw [listed_other h, pageSlots_other h, given_blockSlots_all, found_other h]

theorem given_pageSlots_tops (n : Node) : Slot.given Slot.tops (pageSlots n) = anchors (tops n) := by
  cases n with
  | text s => rfl
  | element name as cs =>
    rw [pageSlots, Slot.given_append, given_inside_tops, List.nil_append, given_blockSlots_tops]
    rfl

theorem given_pageSlots_others (n : Node) :
    Slot.given Slot.others (pageSlots n) = anchors (elsewhere n) := by
  cases n with
  | text s => rfl
  | element name as cs =>
    cases h : isHeading name with
    | true =>
      have hlisted := given_pageSlots_listed (.element name as cs)
      rw [listed_heading h] at hlisted
      rw [hlisted, elsewhere, if_pos h]
    | false =>
      rw [pageSlots_other h, given_blockSlots_others, elsewhere, if_neg (by simp [h])]

/-! ## When order makes no difference -/

/-- Whether routes or index come first makes no difference to the page exactly if no heading
elsewhere is given, by the index, what a route is given by the routes. -/
theorem anchored_eq_iff (ids : Identifiers) {n : Node} (h : Slot.Empty Slot.all (pageSlots n)) :
    (anchorFound (anchorRoutes ids n).2 (anchorRoutes ids n).1).1 =
        (anchorRoutes (anchorFound ids n).2 (anchorFound ids n).1).1 ↔
      ∀ v ∈ anchors (elsewhere (anchorRoutes (anchorFound ids n).2 (anchorFound ids n).1).1),
        v ∉ anchors (tops (anchorRoutes ids n).1) := by
  have hiff := Slot.fill_all_eq_iff ids h
  rw [← pageSlots_routes_first, ← pageSlots_index_first, given_pageSlots_others,
    fill_pageSlots_tops, given_pageSlots_tops] at hiff
  rw [← hiff]
  exact ⟨congrArg pageSlots, anchored_eq_of_slots⟩

/-- It makes none if the routes have the same anchors in both orders. -/
theorem anchored_eq_of_tops {ids : Identifiers} {n : Node} (h : Slot.Empty Slot.all (pageSlots n))
    (heq : anchors (tops (anchorRoutes (anchorFound ids n).2 (anchorFound ids n).1).1) =
      anchors (tops (anchorRoutes ids n).1)) :
    (anchorFound (anchorRoutes ids n).2 (anchorRoutes ids n).1).1 =
      (anchorRoutes (anchorFound ids n).2 (anchorFound ids n).1).1 := by
  refine anchored_eq_of_slots ?_
  rw [pageSlots_routes_first, pageSlots_index_first]
  refine Slot.fill_all_eq_of_given h ?_
  rw [← pageSlots_index_first, given_pageSlots_tops, heq, fill_pageSlots_tops, given_pageSlots_tops]

/-! ## When index and routes are the same headings -/

theorem length_tops_le (ns : List Node) :
    (ns.filter (Node.isA .head3)).length ≤ (ns.flatMap found).length := by
  induction ns with
  | nil => exact Nat.le_refl 0
  | cons n rest ih =>
    rw [List.flatMap_cons, List.length_append]
    cases h3 : n.isA .head3 with
    | true =>
      rw [List.filter_cons_of_pos h3, found_head3 h3, List.length_cons, List.length_singleton]
      omega
    | false =>
      rw [List.filter_cons_of_neg (by simp [h3])]
      omega

theorem flatMap_found_eq_iff (ns : List Node) :
    ns.flatMap found = ns.filter (Node.isA .head3) ↔ ∀ s ∈ blockSlots true ns, s.top = true := by
  induction ns with
  | nil => exact iff_of_true rfl nofun
  | cons n rest ih =>
    cases h3 : n.isA .head3 with
    | true =>
      rw [List.flatMap_cons, List.filter_cons_of_pos h3, found_head3 h3, List.singleton_append,
        List.cons_inj_right, ih, blockSlots_head3 true h3, List.forall_mem_append]
      exact ⟨fun h => ⟨fun _ => top_of_mem_slots, h⟩, And.right⟩
    | false =>
      rw [List.flatMap_cons, List.filter_cons_of_neg (by simp [h3]), blockSlots_other true h3,
        if_pos rfl, List.forall_mem_append, ← ih]
      constructor
      · intro heq
        have hlength := congrArg List.length heq
        have hle := length_tops_le rest
        rw [List.length_append] at hlength
        have hnone : found n = [] := List.eq_nil_of_length_eq_zero (by omega)
        rw [hnone, List.nil_append] at heq
        exact ⟨by simp [slots, hnone], heq⟩
      · rintro ⟨hnone, heq⟩
        have hnil : slots false n = [] := List.eq_nil_iff_forall_not_mem.2 fun s hs => by
          have htop := hnone s hs
          rw [top_of_mem_slots hs] at htop
          cases htop
        rw [List.map_eq_nil_iff.1 hnil, List.nil_append, heq]

theorem blockSlots_false (ns : List Node) :
    blockSlots false ns = (ns.filter (Node.isA .head3)).map (Slot.of true) := by
  induction ns with
  | nil => rfl
  | cons n rest ih =>
    cases h3 : n.isA .head3 with
    | true =>
      rw [blockSlots_head3 false h3, ih, List.filter_cons_of_pos h3, slots, found_head3 h3]
      rfl
    | false =>
      rw [blockSlots_other false h3, ih, List.filter_cons_of_neg (by simp [h3])]
      rfl

theorem forall_others_iff {slots : List Slot} :
    (∀ s ∈ slots, Slot.others s.top = s.top) ↔ slots = [] := by
  refine ⟨fun h => List.eq_nil_iff_forall_not_mem.2 fun s hs => ?_, by rintro rfl; exact nofun⟩
  have := h s hs
  cases htop : s.top <;> simp [Slot.others, htop] at this

/-- A page that is a heading is none of its own blocks. -/
theorem found_heading_eq_iff {name : String} {as : Attributes} {cs : List Node}
    (h : isHeading name = true) :
    found (.element name as cs) = cs.filter (Node.isA .head3) ↔
      found (.element name as cs) = [] ∧ cs.filter (Node.isA .head3) = [] := by
  refine ⟨fun heq => ?_, fun ⟨hfound, htops⟩ => hfound.trans htops.symm⟩
  cases hgroup : isGroup name with
  | true =>
    rw [found_group h hgroup] at heq ⊢
    exact ⟨rfl, heq.symm⟩
  | false =>
    rw [found_route h hgroup] at heq
    have hmem : Node.element name as cs ∈ cs.filter (Node.isA .head3) :=
      heq ▸ List.mem_cons_self
    have hsize := List.sizeOf_lt_of_mem (List.mem_filter.1 hmem).1
    rw [Node.element.sizeOf_spec] at hsize
    omega

/-- The headings that the index finds are the routes exactly if every slot is listed if and only if
it is at the top. -/
theorem found_eq_tops_iff (n : Node) :
    found n = tops n ↔ ∀ s ∈ pageSlots n, listed n s.top = s.top := by
  cases n with
  | text s => exact iff_of_true rfl nofun
  | element name as cs =>
    cases h : isHeading name with
    | true =>
      rw [tops, Node.children, found_heading_eq_iff h, listed_heading h, forall_others_iff,
        pageSlots_heading h, List.append_eq_nil_iff, blockSlots_false, List.map_eq_nil_iff, slots,
        List.map_eq_nil_iff]
    | false =>
      rw [tops, Node.children, found_other h, flatMap_found_eq_iff, listed_other h,
        pageSlots_other h]
      exact forall₂_congr fun s _ => eq_comm

/-- The anchors that the index lists are those of the routes exactly if the index found the very
routes, as long as every heading has an anchor of its own. -/
theorem anchors_found_eq_tops_iff {n m : Node} (hlisted : listed m = listed n)
    (htops : (pageSlots m).map (·.top) = (pageSlots n).map (·.top))
    (hfilled : Slot.Filled Slot.all (pageSlots m))
    (hnodup : (Slot.given Slot.all (pageSlots m)).Nodup) :
    anchors (found m) = anchors (tops m) ↔ found n = tops n := by
  have htop_iff : ∀ wanted : Bool → Bool, (∀ s ∈ pageSlots n, wanted s.top = s.top) ↔
      ∀ s ∈ pageSlots m, wanted s.top = s.top := by
    intro wanted
    have hmap : ∀ l : List Slot, (∀ s ∈ l, wanted s.top = s.top) ↔
        ∀ b ∈ l.map (·.top), wanted b = b := fun l =>
      (List.forall_mem_map (P := fun b => wanted b = b)).symm
    rw [hmap, hmap, htops]
  rw [found_eq_tops_iff, htop_iff, ← given_pageSlots_listed, ← given_pageSlots_tops, hlisted]
  cases n with
  | text s =>
    exact (Slot.given_all_eq_tops_iff hfilled).trans (forall₂_congr fun s _ => eq_comm)
  | element name as cs =>
    cases h : isHeading name with
    | true =>
      rw [listed_heading h, forall_others_iff]
      exact Slot.given_others_eq_tops_iff hfilled hnodup
    | false =>
      rw [listed_other h]
      exact (Slot.given_all_eq_tops_iff hfilled).trans (forall₂_congr fun s _ => eq_comm)

end RouteDocs.Heading
