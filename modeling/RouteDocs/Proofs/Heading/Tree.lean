import RouteDocs.Html.Navigation
import RouteDocs.Proofs.Anchor
import RouteDocs.Proofs.Slot.Order

/-!
# The route headings of a tree

The routes of a page anchor the headings at its top, the index those that it
finds anywhere. Both are a filling of slots, and a tree is known by what its
slots were filled with: so the anchors say all about the order in which the two
were asked for.

Results:
* `fill_slots`, `fill_blockSlots_tops`: anchoring is filling slots.
* `anchorFound_eq_of_slots`, `anchorTops_eq_of_slots`: the anchors determine the tree.
-/
namespace RouteDocs

open Html.Navigation (isHeading isGroup)

namespace Slot

/-- The slot of a heading. -/
def of (top : Bool) (n : Node) : Slot :=
  ⟨top, n.flatten, Anchor.ofAttributes? n.attributes⟩

end Slot

namespace Heading

/-- The headings of routes that the index finds in a tree. -/
def found (n : Node) : List Node :=
  (n.find isHeading).filter (Node.isA .head3)

def slots (top : Bool) (n : Node) : List Slot :=
  (found n).map (Slot.of top)

/-- A tree in which the headings found have their anchors. -/
def anchorFound (ids : Identifiers) (n : Node) : Node × Identifiers :=
  Anchor.ensureWithin isHeading (fun name => !isGroup name) ids n

def anchorFoundAll (ids : Identifiers) (ns : List Node) : List Node × Identifiers :=
  Anchor.ensureAll isHeading (fun name => !isGroup name) ids ns

/-- Nodes of which the route headings have their anchors. -/
def anchorTops (ids : Identifiers) : List Node → List Node × Identifiers
  | [] => ([], ids)
  | n :: rest =>
    let (n, ids) := if n.isA .head3 then Anchor.ensureNode ids n else (n, ids)
    let (rest, ids) := anchorTops ids rest
    (n :: rest, ids)

/-- A node that has its anchor if it is the heading of a route. -/
def anchorTop (ids : Identifiers) (n : Node) : Node × Identifiers :=
  if n.isA .head3 then Anchor.ensureNode ids n else (n, ids)

/-! ## The three ways to meet an element -/

theorem eq_head3 {name : String} (h : isHeading name = true) (hgroup : isGroup name = false) :
    name = Kind.head3.name := by
  rw [isHeading, hgroup, Bool.false_or] at h
  exact eq_of_beq h

theorem isA_element {name : String} {as : Attributes} {cs : List Node} {k : Kind} :
    (Node.element name as cs).isA k = true ↔ name = k.name := by
  rw [Node.isA_iff_kind?, Node.kind?, Kind.ofName?_eq_some_iff]

section
variable {name : String} {as : Attributes} {cs : List Node} {ids : Identifiers}

theorem found_group (h : isHeading name = true) (hgroup : isGroup name = true) :
    found (.element name as cs) = [] := by
  have h3 : (Node.element name as cs).isA .head3 = false := by
    refine Bool.eq_false_iff.2 fun h3 => ?_
    rw [isA_element.1 h3] at hgroup
    exact absurd hgroup (by decide)
  rw [found, Node.find, if_pos h, List.filter_cons_of_neg (by simp [h3]), List.filter_nil]

theorem found_route (h : isHeading name = true) (hgroup : isGroup name = false) :
    found (.element name as cs) = [.element name as cs] := by
  have h3 : (Node.element name as cs).isA .head3 = true := isA_element.2 (eq_head3 h hgroup)
  rw [found, Node.find, if_pos h, List.filter_cons_of_pos h3, List.filter_nil]

theorem found_other (h : isHeading name = false) :
    found (.element name as cs) = cs.flatMap found := by
  rw [found, Node.find, if_neg (by simp [h]), Node.findAll_eq_flatMap, List.filter_flatMap]
  rfl

theorem anchorFound_group (h : isHeading name = true) (hgroup : isGroup name = true) :
    anchorFound ids (.element name as cs) = (.element name as cs, ids) := by
  rw [anchorFound, Anchor.ensureWithin, if_pos h, if_neg (by simp [hgroup])]

theorem anchorFound_route (h : isHeading name = true) (hgroup : isGroup name = false) :
    anchorFound ids (.element name as cs) = Anchor.ensureNode ids (.element name as cs) := by
  rw [anchorFound, Anchor.ensureWithin, if_pos h, if_pos (by simp [hgroup])]

theorem anchorFound_other (h : isHeading name = false) :
    anchorFound ids (.element name as cs) =
      (.element name as (anchorFoundAll ids cs).1, (anchorFoundAll ids cs).2) := by
  rw [anchorFound, Anchor.ensureWithin, if_neg (by simp [h])]
  rfl

theorem anchorFoundAll_cons (n : Node) (rest : List Node) :
    anchorFoundAll ids (n :: rest) =
      ((anchorFound ids n).1 :: (anchorFoundAll (anchorFound ids n).2 rest).1,
        (anchorFoundAll (anchorFound ids n).2 rest).2) :=
  rfl

theorem anchorFoundAll_append (ids : Identifiers) (ns ms : List Node) :
    anchorFoundAll ids (ns ++ ms) =
      ((anchorFoundAll ids ns).1 ++ (anchorFoundAll (anchorFoundAll ids ns).2 ms).1,
        (anchorFoundAll (anchorFoundAll ids ns).2 ms).2) := by
  induction ns generalizing ids with
  | nil => rfl
  | cons n rest ih =>
    rw [List.cons_append, anchorFoundAll_cons, ih, anchorFoundAll_cons, List.cons_append]

/-! ## What anchoring leaves alone -/

theorem kind?_ensureNode (ids : Identifiers) (n : Node) :
    (Anchor.ensureNode ids n).1.kind? = n.kind? := by
  cases n <;> rfl

theorem flatten_ensureNode (ids : Identifiers) (n : Node) :
    (Anchor.ensureNode ids n).1.flatten = n.flatten := by
  cases n <;> rfl

mutual

theorem flatten_anchorFound (ids : Identifiers) : ∀ n : Node,
    (anchorFound ids n).1.flatten = n.flatten
  | .text s => rfl
  | .element name as cs => by
    cases h : isHeading name with
    | true =>
      cases hgroup : isGroup name with
      | true => rw [anchorFound_group h hgroup]
      | false => rw [anchorFound_route h hgroup, flatten_ensureNode]
    | false =>
      rw [anchorFound_other h]
      exact flattenAll_anchorFoundAll ids cs

theorem flattenAll_anchorFoundAll (ids : Identifiers) : ∀ ns : List Node,
    Node.flattenAll (anchorFoundAll ids ns).1 = Node.flattenAll ns
  | [] => rfl
  | n :: rest => by
    rw [anchorFoundAll_cons, Node.flattenAll, Node.flattenAll, flatten_anchorFound,
      flattenAll_anchorFoundAll]

end

theorem found_head3 {n : Node} (h3 : n.isA .head3 = true) : found n = [n] := by
  obtain ⟨as, cs, rfl⟩ := Node.isA_iff.1 h3
  exact found_route (by decide) (by decide)

theorem kind?_anchorFound (ids : Identifiers) (n : Node) :
    (anchorFound ids n).1.kind? = n.kind? := by
  cases n with
  | text s => rfl
  | element name as cs =>
    cases h : isHeading name with
    | true =>
      cases hgroup : isGroup name with
      | true => rw [anchorFound_group h hgroup]
      | false => rw [anchorFound_route h hgroup, kind?_ensureNode]
    | false => rw [anchorFound_other h]; rfl

theorem isA_anchorFound (ids : Identifiers) (n : Node) (k : Kind) :
    (anchorFound ids n).1.isA k = n.isA k := by
  rw [Node.isA, kind?_anchorFound, Node.isA]

/-! ## Anchoring is filling slots -/

theorem fill_of_route (wanted : Bool → Bool) {top : Bool} (hw : wanted top = true) :
    Slot.fill wanted ids [Slot.of top (.element name as cs)] =
      ([Slot.of top (Anchor.ensureNode ids (.element name as cs)).1],
        (Anchor.ensureNode ids (.element name as cs)).2) := by
  cases ha : Anchor.ofAttributes? as with
  | none =>
    have hempty : (Slot.of top (.element name as cs)).anchor = none := ha
    rw [Slot.fill_cons_empty hw hempty, Anchor.ensureNode_of_none ids ha]
    simp only [Slot.of, Node.attributes, Anchor.ofAttributes?_put]
    rfl
  | some v =>
    have hfull : (Slot.of top (.element name as cs)).anchor.isSome = true := by
      rw [Slot.of, Node.attributes, ha]
      rfl
    rw [Slot.fill_cons_other (.inr hfull), Anchor.ensureNode, Anchor.ensure, ha]
    rfl

end

mutual

/-- To anchor the headings found in a tree is to fill their slots. -/
theorem fill_slots (wanted : Bool → Bool) {top : Bool} (hw : wanted top = true)
    (ids : Identifiers) : ∀ n : Node,
    Slot.fill wanted ids (slots top n) = (slots top (anchorFound ids n).1, (anchorFound ids n).2)
  | .text s => rfl
  | .element name as cs => by
    cases h : isHeading name with
    | true =>
      cases hgroup : isGroup name with
      | true => rw [slots, anchorFound_group h hgroup, slots, found_group h hgroup]; rfl
      | false =>
        have hafter : slots top (Anchor.ensureNode ids (.element name as cs)).1 =
            [Slot.of top (Anchor.ensureNode ids (.element name as cs)).1] := by
          rw [slots, Anchor.ensureNode, found_route h hgroup]
          rfl
        rw [slots, anchorFound_route h hgroup, found_route h hgroup, hafter]
        exact fill_of_route wanted hw
    | false =>
      rw [slots, anchorFound_other h, slots, found_other h, found_other h]
      exact fill_slotsAll wanted hw ids cs

theorem fill_slotsAll (wanted : Bool → Bool) {top : Bool} (hw : wanted top = true)
    (ids : Identifiers) : ∀ ns : List Node,
    Slot.fill wanted ids ((ns.flatMap found).map (Slot.of top)) =
      (((anchorFoundAll ids ns).1.flatMap found).map (Slot.of top), (anchorFoundAll ids ns).2)
  | [] => rfl
  | n :: rest => by
    have hn := fill_slots wanted hw ids n
    rw [slots, slots] at hn
    rw [List.flatMap_cons, List.map_append, Slot.fill_append, hn, anchorFoundAll_cons,
      fill_slotsAll wanted hw _ rest, List.flatMap_cons, List.map_append]

end

/-! ## Blocks -/

/-- The slots of the headings in a row of blocks: those at the top, and those inside other blocks
if they count. -/
def blockSlots (inside : Bool) (ns : List Node) : List Slot :=
  ns.flatMap fun n => if n.isA .head3 then slots true n else if inside then slots false n else []

section
variable {ids : Identifiers} {n : Node}

theorem anchorFound_head3 (h3 : n.isA .head3 = true) : anchorFound ids n = Anchor.ensureNode ids n := by
  obtain ⟨as, cs, rfl⟩ := Node.isA_iff.1 h3
  exact anchorFound_route (by decide) (by decide)

theorem anchorTops_head3 (h3 : n.isA .head3 = true) (rest : List Node) :
    anchorTops ids (n :: rest) =
      ((anchorFound ids n).1 :: (anchorTops (anchorFound ids n).2 rest).1,
        (anchorTops (anchorFound ids n).2 rest).2) := by
  rw [anchorTops, if_pos h3, anchorFound_head3 h3]

theorem anchorTops_other (h3 : n.isA .head3 = false) (rest : List Node) :
    anchorTops ids (n :: rest) = (n :: (anchorTops ids rest).1, (anchorTops ids rest).2) := by
  rw [anchorTops, if_neg (by simp [h3])]

theorem anchorTop_head3 (h3 : n.isA .head3 = true) : anchorTop ids n = anchorFound ids n := by
  rw [anchorTop, if_pos h3, anchorFound_head3 h3]

theorem anchorTop_other (h3 : n.isA .head3 = false) : anchorTop ids n = (n, ids) := by
  rw [anchorTop, if_neg (by simp [h3])]

theorem anchorTops_cons (ids : Identifiers) (n : Node) (rest : List Node) :
    anchorTops ids (n :: rest) =
      ((anchorTop ids n).1 :: (anchorTops (anchorTop ids n).2 rest).1,
        (anchorTops (anchorTop ids n).2 rest).2) :=
  rfl

theorem anchorTops_append (ids : Identifiers) (ns ms : List Node) :
    anchorTops ids (ns ++ ms) =
      ((anchorTops ids ns).1 ++ (anchorTops (anchorTops ids ns).2 ms).1,
        (anchorTops (anchorTops ids ns).2 ms).2) := by
  induction ns generalizing ids with
  | nil => rfl
  | cons n rest ih => rw [List.cons_append, anchorTops_cons, ih, anchorTops_cons, List.cons_append]

theorem kind?_anchorTop (ids : Identifiers) (n : Node) : (anchorTop ids n).1.kind? = n.kind? := by
  cases h3 : n.isA .head3 with
  | true => rw [anchorTop_head3 h3, kind?_anchorFound]
  | false => rw [anchorTop_other h3]

theorem isA_anchorTop (ids : Identifiers) (n : Node) (k : Kind) :
    (anchorTop ids n).1.isA k = n.isA k := by
  rw [Node.isA, kind?_anchorTop, Node.isA]

theorem flatten_anchorTop (ids : Identifiers) (n : Node) :
    (anchorTop ids n).1.flatten = n.flatten := by
  cases h3 : n.isA .head3 with
  | true => rw [anchorTop_head3 h3, flatten_anchorFound]
  | false => rw [anchorTop_other h3]

theorem flattenAll_anchorTops (ids : Identifiers) (ns : List Node) :
    Node.flattenAll (anchorTops ids ns).1 = Node.flattenAll ns := by
  induction ns generalizing ids with
  | nil => rfl
  | cons n rest ih =>
    rw [anchorTops_cons, Node.flattenAll, Node.flattenAll, flatten_anchorTop, ih]

theorem blockSlots_head3 (inside : Bool) (h3 : n.isA .head3 = true) (rest : List Node) :
    blockSlots inside (n :: rest) = slots true n ++ blockSlots inside rest := by
  rw [blockSlots, List.flatMap_cons, if_pos h3, blockSlots]

theorem blockSlots_other (inside : Bool) (h3 : n.isA .head3 = false) (rest : List Node) :
    blockSlots inside (n :: rest) =
      (if inside then slots false n else []) ++ blockSlots inside rest := by
  rw [blockSlots, List.flatMap_cons, if_neg (by simp [h3]), blockSlots]

theorem top_of_mem_slots {top : Bool} {s : Slot} (hs : s ∈ slots top n) : s.top = top := by
  obtain ⟨m, -, rfl⟩ := List.mem_map.1 hs
  rfl

theorem filled_head {inside : Bool} {rest : List Node} (h3 : n.isA .head3 = true)
    (h : Slot.Filled Slot.tops (blockSlots inside (n :: rest))) :
    Slot.Filled Slot.all (slots true n) := by
  rw [blockSlots_head3 inside h3] at h
  exact fun s hs _ => h s (List.mem_append_left _ hs) (top_of_mem_slots hs)

theorem filled_tail {inside : Bool} {rest : List Node}
    (h : Slot.Filled Slot.tops (blockSlots inside (n :: rest))) :
    Slot.Filled Slot.tops (blockSlots inside rest) := by
  rw [blockSlots, List.flatMap_cons] at h
  exact fun s hs => h s (List.mem_append_right _ hs)

theorem fill_blockSlots_all (ids : Identifiers) (ns : List Node) :
    Slot.fill Slot.all ids (blockSlots true ns) =
      (blockSlots true (anchorFoundAll ids ns).1, (anchorFoundAll ids ns).2) := by
  induction ns generalizing ids with
  | nil => rfl
  | cons n rest ih =>
    have hisA := isA_anchorFound ids n .head3
    cases h3 : n.isA .head3 with
    | true =>
      rw [blockSlots_head3 true h3, Slot.fill_append, fill_slots Slot.all rfl, ih,
        anchorFoundAll_cons, blockSlots_head3 true (hisA.trans h3)]
    | false =>
      rw [blockSlots_other true h3, if_pos rfl, Slot.fill_append, fill_slots Slot.all rfl, ih,
        anchorFoundAll_cons, blockSlots_other true (hisA.trans h3), if_pos rfl]

theorem fill_inside {wanted : Bool → Bool} {inside : Bool}
    (hinside : inside = true → wanted false = false) (ids : Identifiers) (n : Node) :
    Slot.fill wanted ids (if inside then slots false n else []) =
      (if inside then slots false n else [], ids) := by
  refine Slot.fill_of_filled (fun s hs hw => ?_) ids
  split at hs
  · rename_i h
    obtain ⟨m, -, rfl⟩ := List.mem_map.1 hs
    rw [Slot.of, hinside h] at hw
    cases hw
  · cases hs

/-- To anchor the headings at the top is to fill their slots. -/
theorem fill_blockSlots_tops {wanted : Bool → Bool} {inside : Bool} (htop : wanted true = true)
    (hinside : inside = true → wanted false = false) (ids : Identifiers) (ns : List Node) :
    Slot.fill wanted ids (blockSlots inside ns) =
      (blockSlots inside (anchorTops ids ns).1, (anchorTops ids ns).2) := by
  induction ns generalizing ids with
  | nil => rfl
  | cons n rest ih =>
    have hisA := isA_anchorFound ids n .head3
    cases h3 : n.isA .head3 with
    | true =>
      rw [blockSlots_head3 inside h3, Slot.fill_append, fill_slots wanted htop, ih,
        anchorTops_head3 h3, blockSlots_head3 inside (hisA.trans h3)]
    | false =>
      rw [blockSlots_other inside h3, Slot.fill_append, fill_inside hinside, ih,
        anchorTops_other h3, blockSlots_other inside h3]

/-! ## The anchors determine the tree -/

theorem length_slots_anchorFound (top : Bool) (ids : Identifiers) (n : Node) :
    (slots top (anchorFound ids n).1).length = (slots top n).length := by
  have hlength := Slot.length_fill Slot.all ids (slots top n)
  rwa [fill_slots Slot.all rfl] at hlength

theorem ensureNode_eq_of_slot {ids ids' : Identifiers} {top : Bool} {name : String}
    {as : Attributes} {cs : List Node}
    (h : Slot.of top (Anchor.ensureNode ids (.element name as cs)).1 =
      Slot.of top (Anchor.ensureNode ids' (.element name as cs)).1) :
    (Anchor.ensureNode ids (.element name as cs)).1 =
      (Anchor.ensureNode ids' (.element name as cs)).1 := by
  rw [Anchor.ensureNode_element, Anchor.ensureNode_element] at h ⊢
  rw [Anchor.ensure_eq_of_anchor (congrArg Slot.anchor h)]

mutual

/-- A tree is known by what the headings found in it were given. -/
theorem anchorFound_eq_of_slots {top : Bool} {ids ids' : Identifiers} : ∀ n : Node,
    slots top (anchorFound ids n).1 = slots top (anchorFound ids' n).1 →
      (anchorFound ids n).1 = (anchorFound ids' n).1
  | .text s, _ => rfl
  | .element name as cs, heq => by
    cases h : isHeading name with
    | true =>
      cases hgroup : isGroup name with
      | true => rw [anchorFound_group h hgroup, anchorFound_group h hgroup]
      | false =>
        rw [anchorFound_route h hgroup, anchorFound_route h hgroup] at heq ⊢
        rw [slots, slots, Anchor.ensureNode, Anchor.ensureNode, found_route h hgroup,
          found_route h hgroup] at heq
        exact ensureNode_eq_of_slot (List.cons.inj heq).1
    | false =>
      rw [anchorFound_other h, anchorFound_other h] at heq ⊢
      rw [slots, slots, found_other h, found_other h] at heq
      rw [anchorFoundAll_eq_of_slots cs heq]

theorem anchorFoundAll_eq_of_slots {top : Bool} {ids ids' : Identifiers} : ∀ ns : List Node,
    ((anchorFoundAll ids ns).1.flatMap found).map (Slot.of top) =
        ((anchorFoundAll ids' ns).1.flatMap found).map (Slot.of top) →
      (anchorFoundAll ids ns).1 = (anchorFoundAll ids' ns).1
  | [], _ => rfl
  | n :: rest, heq => by
    rw [anchorFoundAll_cons, anchorFoundAll_cons] at heq ⊢
    rw [List.flatMap_cons, List.flatMap_cons, List.map_append, List.map_append] at heq
    have hlength := (length_slots_anchorFound top ids n).trans
      (length_slots_anchorFound top ids' n).symm
    obtain ⟨hn, hrest⟩ := List.append_inj heq hlength
    rw [anchorFound_eq_of_slots n hn, anchorFoundAll_eq_of_slots rest hrest]

end

/-- Blocks are known by what the headings at the top were given. -/
theorem anchorTops_eq_of_slots {inside : Bool} {ids ids' : Identifiers} {ns : List Node}
    (heq : blockSlots inside (anchorTops ids ns).1 = blockSlots inside (anchorTops ids' ns).1) :
    (anchorTops ids ns).1 = (anchorTops ids' ns).1 := by
  induction ns generalizing ids ids' with
  | nil => rfl
  | cons n rest ih =>
    cases h3 : n.isA .head3 with
    | true =>
      rw [anchorTops_head3 h3, anchorTops_head3 h3] at heq ⊢
      rw [blockSlots_head3 inside ((isA_anchorFound _ n .head3).trans h3),
        blockSlots_head3 inside ((isA_anchorFound _ n .head3).trans h3)] at heq
      have hlength := (length_slots_anchorFound true ids n).trans
        (length_slots_anchorFound true ids' n).symm
      obtain ⟨hn, hrest⟩ := List.append_inj heq hlength
      rw [anchorFound_eq_of_slots n hn, ih hrest]
    | false =>
      rw [anchorTops_other h3, anchorTops_other h3] at heq ⊢
      rw [blockSlots_other inside h3, blockSlots_other inside h3] at heq
      rw [ih (List.append_cancel_left heq)]

theorem length_anchorTops (ids : Identifiers) (ns : List Node) :
    (anchorTops ids ns).1.length = ns.length := by
  induction ns generalizing ids with
  | nil => rfl
  | cons n rest ih => rw [anchorTops_cons, List.length_cons, List.length_cons, ih]

theorem length_anchorFoundAll (ids : Identifiers) (ns : List Node) :
    (anchorFoundAll ids ns).1.length = ns.length := by
  induction ns generalizing ids with
  | nil => rfl
  | cons n rest ih => rw [anchorFoundAll_cons, List.length_cons, List.length_cons, ih]

theorem anchorFound_element (ids : Identifiers) (name : String) (as : Attributes) (cs : List Node) :
    ∃ as' cs', (anchorFound ids (.element name as cs)).1 = .element name as' cs' ∧
      cs'.length = cs.length := by
  cases h : isHeading name with
  | true =>
    cases hgroup : isGroup name with
    | true => exact ⟨as, cs, by rw [anchorFound_group h hgroup], rfl⟩
    | false =>
      rw [anchorFound_route h hgroup, Anchor.ensureNode_element]
      exact ⟨_, cs, rfl, rfl⟩
  | false =>
    rw [anchorFound_other h]
    exact ⟨as, _, rfl, length_anchorFoundAll ids cs⟩

theorem fallback_anchorFound (ids : Identifiers) (n : Node) :
    (anchorFound ids n).2.fallback = ids.fallback := by
  have hfallback := Slot.fallback_fill Slot.all ids (slots true n)
  rwa [fill_slots Slot.all rfl] at hfallback

theorem fallback_anchorTop (ids : Identifiers) (n : Node) :
    (anchorTop ids n).2.fallback = ids.fallback := by
  cases h3 : n.isA .head3 with
  | true => rw [anchorTop_head3 h3, fallback_anchorFound]
  | false => rw [anchorTop_other h3]

theorem fallback_anchorTops (ids : Identifiers) (ns : List Node) :
    (anchorTops ids ns).2.fallback = ids.fallback := by
  have hfallback := Slot.fallback_fill Slot.tops ids (blockSlots false ns)
  rwa [fill_blockSlots_tops rfl fun _ => rfl] at hfallback

/-! ## Trees that have their anchors -/

mutual

theorem anchorFound_of_filled {top : Bool} (ids : Identifiers) : ∀ n : Node,
    Slot.Filled Slot.all (slots top n) → anchorFound ids n = (n, ids)
  | .text s, _ => rfl
  | .element name as cs, hfull => by
    cases h : isHeading name with
    | true =>
      cases hgroup : isGroup name with
      | true => exact anchorFound_group h hgroup
      | false =>
        rw [slots, found_route h hgroup] at hfull
        obtain ⟨v, hv⟩ := Option.isSome_iff_exists.1 (hfull _ List.mem_cons_self rfl)
        have ha : Anchor.ofAttributes? as = some v := hv
        rw [anchorFound_route h hgroup, Anchor.ensureNode, Anchor.ensure, ha]
    | false =>
      rw [slots, found_other h] at hfull
      rw [anchorFound_other h, anchorFoundAll_of_filled ids cs hfull]

theorem anchorFoundAll_of_filled {top : Bool} (ids : Identifiers) : ∀ ns : List Node,
    Slot.Filled Slot.all ((ns.flatMap found).map (Slot.of top)) → anchorFoundAll ids ns = (ns, ids)
  | [], _ => rfl
  | n :: rest, hfull => by
    rw [List.flatMap_cons, List.map_append] at hfull
    have hn : Slot.Filled Slot.all (slots top n) :=
      fun s hs => hfull s (List.mem_append_left _ hs)
    have hrest : Slot.Filled Slot.all ((rest.flatMap found).map (Slot.of top)) :=
      fun s hs => hfull s (List.mem_append_right _ hs)
    rw [anchorFoundAll_cons, anchorFound_of_filled ids n hn, anchorFoundAll_of_filled ids rest hrest]

end

theorem filled_slots_anchorFound (top : Bool) (ids : Identifiers) (n : Node) :
    Slot.Filled Slot.all (slots top (anchorFound ids n).1) := by
  have hfilled := Slot.filled_fill Slot.all ids (slots top n)
  rwa [fill_slots Slot.all rfl] at hfilled

theorem filled_anchorTops (inside : Bool) (ids : Identifiers) (ns : List Node) :
    Slot.Filled Slot.tops (blockSlots inside (anchorTops ids ns).1) := by
  have hfilled := Slot.filled_fill Slot.tops ids (blockSlots inside ns)
  rwa [fill_blockSlots_tops rfl fun _ => rfl] at hfilled

theorem anchorTops_of_filled {inside : Bool} {ns : List Node}
    (h : Slot.Filled Slot.tops (blockSlots inside ns)) (ids : Identifiers) :
    anchorTops ids ns = (ns, ids) := by
  induction ns with
  | nil => rfl
  | cons n rest ih =>
    have hrest := ih (filled_tail h)
    cases h3 : n.isA .head3 with
    | true => rw [anchorTops_head3 h3, anchorFound_of_filled ids n (filled_head h3 h), hrest]
    | false => rw [anchorTops_other h3, hrest]

theorem anchorTops_anchorFoundAll (ids ids' : Identifiers) (ns : List Node) :
    anchorTops ids' (anchorFoundAll ids ns).1 = ((anchorFoundAll ids ns).1, ids') := by
  have hfilled := Slot.filled_fill Slot.all ids (blockSlots true ns)
  rw [fill_blockSlots_all] at hfilled
  have htops : Slot.Filled Slot.tops (blockSlots true (anchorFoundAll ids ns).1) :=
    fun s hs _ => hfilled s hs rfl
  exact anchorTops_of_filled htops ids'

/-- Blocks of which the headings at the top were anchored beforehand are known by what their
headings were given, too. -/
theorem anchorFoundAll_anchorTops_eq_of_slots {first ids ids' : Identifiers} {ns : List Node}
    (heq : blockSlots true (anchorFoundAll ids (anchorTops first ns).1).1 =
      blockSlots true (anchorFoundAll ids' ns).1) :
    (anchorFoundAll ids (anchorTops first ns).1).1 = (anchorFoundAll ids' ns).1 := by
  induction ns generalizing first ids ids' with
  | nil => rfl
  | cons n rest ih =>
    have hisA := isA_anchorFound ids' n .head3
    cases h3 : n.isA .head3 with
    | true =>
      have hisA' := isA_anchorFound first n .head3
      have hkept := anchorFound_of_filled ids _ (filled_slots_anchorFound true first n)
      rw [anchorTops_head3 h3, anchorFoundAll_cons, anchorFoundAll_cons, hkept] at heq ⊢
      rw [blockSlots_head3 true (hisA'.trans h3), blockSlots_head3 true (hisA.trans h3)] at heq
      have hlength := (length_slots_anchorFound true first n).trans
        (length_slots_anchorFound true ids' n).symm
      obtain ⟨hn, hrest⟩ := List.append_inj heq hlength
      rw [anchorFound_eq_of_slots n hn, ih hrest]
    | false =>
      have hisA' := isA_anchorFound ids n .head3
      rw [anchorTops_other h3, anchorFoundAll_cons, anchorFoundAll_cons] at heq ⊢
      rw [blockSlots_other true (hisA'.trans h3), blockSlots_other true (hisA.trans h3), if_pos rfl,
        if_pos rfl] at heq
      have hlength := (length_slots_anchorFound false ids n).trans
        (length_slots_anchorFound false ids' n).symm
      obtain ⟨hn, hrest⟩ := List.append_inj heq hlength
      rw [anchorFound_eq_of_slots n hn, ih hrest]

end

end Heading
end RouteDocs
