import RouteDocs.Proofs.Allocation
import RouteDocs.Value

/-!
# Slots for anchors

The headings of routes in a tree are slots for anchors, filled from one pool of
identifiers. A pass fills those that it wants and that are still empty, from the
first on.

Results:
* `fill_append`, `fill_of_filled`: slots are filled one after the other, full ones are left.
* `mem_issued_fill`, `mem_given_fill`: what slots are given.
* `Distinct.fill`: what slots hold stays distinct from pass to pass.
* `fill_eq_of_subset`, `fill_congr`: what the pool has to do with it.
-/
namespace RouteDocs

/-- A place for an anchor: whether it is at the top of the page, the text of its heading, and the
anchor that it holds. -/
structure Slot where
  top : Bool
  text : String
  anchor : Option Value

namespace Slot

def all : Bool → Bool := fun _ => true

def fill (wanted : Bool → Bool) (ids : Identifiers) : List Slot → List Slot × Identifiers
  | [] => ([], ids)
  | s :: rest =>
    if wanted s.top && s.anchor.isNone then
      let (x, ids) := ids.allocate s.text
      let (rest, ids) := fill wanted ids rest
      ({ s with anchor := some (.text x) } :: rest, ids)
    else
      let (rest, ids) := fill wanted ids rest
      (s :: rest, ids)

def given (wanted : Bool → Bool) (slots : List Slot) : List Value :=
  slots.filterMap fun s => if wanted s.top then s.anchor else none

def Empty (wanted : Bool → Bool) (slots : List Slot) : Prop :=
  ∀ s ∈ slots, wanted s.top = true → s.anchor = none

def Filled (wanted : Bool → Bool) (slots : List Slot) : Prop :=
  ∀ s ∈ slots, wanted s.top = true → s.anchor.isSome = true

section
variable {wanted : Bool → Bool} {ids : Identifiers} {s : Slot} {slots : List Slot}

theorem fill_cons_empty (hs : wanted s.top = true) (ha : s.anchor = none) :
    fill wanted ids (s :: slots) =
      ({ s with anchor := some (.text (ids.fresh s.text)) } ::
          (fill wanted (ids.allocate s.text).2 slots).1,
        (fill wanted (ids.allocate s.text).2 slots).2) := by
  rw [fill, hs, ha]
  rfl

theorem fill_cons_other (hs : wanted s.top = false ∨ s.anchor.isSome = true) :
    fill wanted ids (s :: slots) = (s :: (fill wanted ids slots).1, (fill wanted ids slots).2) := by
  rw [fill, if_neg]
  rcases hs with hs | hs
  · simp [hs]
  · simp [Option.isNone_eq_false_iff.2 hs]

theorem given_cons_some {v : Value} (hs : wanted s.top = true) (ha : s.anchor = some v) :
    given wanted (s :: slots) = v :: given wanted slots := by
  rw [given, List.filterMap_cons, if_pos hs, ha, given]

theorem given_cons_other (hs : wanted s.top = false) :
    given wanted (s :: slots) = given wanted slots := by
  rw [given, List.filterMap_cons, if_neg (by simp [hs]), given]

theorem given_cons_none (ha : s.anchor = none) :
    given wanted (s :: slots) = given wanted slots := by
  simp [given, ha]

theorem given_refilled (hs : wanted s.top = false) (a : Option Value) :
    given wanted ({ s with anchor := a } :: slots) = given wanted slots :=
  given_cons_other (s := { s with anchor := a }) hs

theorem mem_given_cons {v : Value} :
    v ∈ given wanted (s :: slots) ↔
      wanted s.top = true ∧ s.anchor = some v ∨ v ∈ given wanted slots := by
  cases hw : wanted s.top with
  | false => simp [given_cons_other hw]
  | true =>
    cases ha : s.anchor with
    | none => simp [given, hw, ha]
    | some u => simp [given_cons_some hw ha, eq_comm]

theorem given_append (wanted : Bool → Bool) (as bs : List Slot) :
    given wanted (as ++ bs) = given wanted as ++ given wanted bs :=
  List.filterMap_append

theorem given_eq_nil (h : ∀ s ∈ slots, wanted s.top = false) : given wanted slots = [] := by
  rw [given, List.filterMap_eq_nil_iff]
  exact fun s hs => if_neg (by simp [h s hs])

theorem given_of_empty (h : Empty wanted slots) : given wanted slots = [] := by
  refine List.filterMap_eq_nil_iff.2 fun s hs => ?_
  split
  · rename_i hw
    exact h s hs hw
  · rfl

theorem fill_append (wanted : Bool → Bool) (ids : Identifiers) (as bs : List Slot) :
    fill wanted ids (as ++ bs) =
      ((fill wanted ids as).1 ++ (fill wanted (fill wanted ids as).2 bs).1,
        (fill wanted (fill wanted ids as).2 bs).2) := by
  induction as generalizing ids with
  | nil => rfl
  | cons a as ih =>
    by_cases ha : wanted a.top = true ∧ a.anchor = none
    · rw [List.cons_append, fill_cons_empty ha.1 ha.2, fill_cons_empty ha.1 ha.2, ih]
      rfl
    · have ha' : wanted a.top = false ∨ a.anchor.isSome = true := by
        rw [not_and] at ha
        cases hw : wanted a.top with
        | false => exact .inl rfl
        | true => exact .inr (Option.isSome_iff_ne_none.2 (ha hw))
      rw [List.cons_append, fill_cons_other ha', fill_cons_other ha', ih]
      rfl

/-- Induction along the slots, by whether a slot is filled. -/
theorem fill_induction (wanted : Bool → Bool) {motive : Identifiers → List Slot → Prop}
    (nil : ∀ ids, motive ids [])
    (empty : ∀ ids s slots, wanted s.top = true → s.anchor = none →
      motive (ids.allocate s.text).2 slots → motive ids (s :: slots))
    (other : ∀ ids s slots, wanted s.top = false ∨ s.anchor.isSome = true →
      motive ids slots → motive ids (s :: slots))
    (ids : Identifiers) (slots : List Slot) : motive ids slots := by
  induction slots generalizing ids with
  | nil => exact nil ids
  | cons s slots ih =>
    cases hw : wanted s.top with
    | false => exact other ids s slots (.inl hw) (ih ids)
    | true =>
      cases ha : s.anchor with
      | none => exact empty ids s slots hw ha (ih _)
      | some v => exact other ids s slots (.inr (by rw [ha]; rfl)) (ih ids)

theorem map_top_fill (wanted : Bool → Bool) (ids : Identifiers) (slots : List Slot) :
    (fill wanted ids slots).1.map (·.top) = slots.map (·.top) := by
  induction ids, slots using fill_induction wanted with
  | nil ids => rfl
  | empty ids s slots hw ha ih => rw [fill_cons_empty hw ha, List.map_cons, List.map_cons, ih]
  | other ids s slots hs ih => rw [fill_cons_other hs, List.map_cons, List.map_cons, ih]

theorem length_fill (wanted : Bool → Bool) (ids : Identifiers) (slots : List Slot) :
    (fill wanted ids slots).1.length = slots.length := by
  simpa using congrArg List.length (map_top_fill wanted ids slots)

/-! ## What slots are given -/

theorem fallback_fill (wanted : Bool → Bool) (ids : Identifiers) (slots : List Slot) :
    (fill wanted ids slots).2.fallback = ids.fallback := by
  induction ids, slots using fill_induction wanted with
  | nil ids => rfl
  | empty ids s slots hw ha ih => rw [fill_cons_empty hw ha, ih, Identifiers.fallback_allocate]
  | other ids s slots hs ih => rw [fill_cons_other hs, ih]

theorem subset_issued_fill (wanted : Bool → Bool) (ids : Identifiers) (slots : List Slot) :
    ids.issued ⊆ (Slot.fill wanted ids slots).2.issued := by
  induction ids, slots using fill_induction wanted with
  | nil ids => exact fun x hx => hx
  | empty ids s slots hw ha ih =>
    rw [fill_cons_empty hw ha]
    exact fun x hx => ih (Identifiers.mem_issued_allocate.2 (.inl hx))
  | other ids s slots hs ih => rwa [fill_cons_other hs]

/-- What slots are given is well-formed. -/
theorem proper_fill (h : ids.Proper) (wanted : Bool → Bool) (slots : List Slot) :
    (Slot.fill wanted ids slots).2.Proper := by
  induction ids, slots using fill_induction wanted with
  | nil ids => exact h
  | empty ids s slots hw ha ih =>
    rw [fill_cons_empty hw ha]
    exact ih (h.allocate s.text)
  | other ids s slots hs ih =>
    rw [fill_cons_other hs]
    exact ih h

/-- After a pass a slot holds what one held before, or an identifier that was not in use. -/
theorem mem_given_fill {wanted' : Bool → Bool} {v : Value}
    (hv : v ∈ given wanted' (fill wanted ids slots).1) :
    v ∈ given wanted' slots ∨ ∃ x, x ∉ ids.issued ∧ v = .text x := by
  induction ids, slots using fill_induction wanted with
  | nil ids => cases hv
  | empty ids s slots hw ha ih =>
    rw [fill_cons_empty hw ha, mem_given_cons] at hv
    rcases hv with ⟨-, hv⟩ | hv
    · exact .inr ⟨_, ids.fresh_notMem s.text, (Option.some.inj hv).symm⟩
    · refine (ih hv).imp (fun hv => mem_given_cons.2 (.inr hv)) ?_
      rintro ⟨x, hx, rfl⟩
      exact ⟨x, fun hmem => hx (Identifiers.mem_issued_allocate.2 (.inl hmem)), rfl⟩
  | other ids s slots hs ih =>
    rw [fill_cons_other hs, mem_given_cons] at hv
    rcases hv with hv | hv
    · exact .inl (mem_given_cons.2 (.inl hv))
    · exact (ih hv).imp (fun hv => mem_given_cons.2 (.inr hv)) fun h => h

theorem Empty.tail (h : Empty wanted (s :: slots)) : Empty wanted slots :=
  fun t ht => h t (List.mem_cons_of_mem s ht)

theorem Empty.mono {wanted' : Bool → Bool} (h : Empty all slots) : Empty wanted' slots :=
  fun s hs _ => h s hs rfl

theorem given_fill_empty (hs : wanted s.top = true) (ha : s.anchor = none) :
    given wanted (fill wanted ids (s :: slots)).1 =
      .text (ids.fresh s.text) :: given wanted (fill wanted (ids.allocate s.text).2 slots).1 := by
  rw [fill_cons_empty hs ha, given, List.filterMap_cons, if_pos hs]
  rfl

theorem given_fill_other (hs : wanted s.top = false) :
    given wanted (fill wanted ids (s :: slots)).1 = given wanted (fill wanted ids slots).1 := by
  rw [fill_cons_other (.inl hs), given_cons_other hs]

/-- Induction along slots of which the wanted ones are empty. -/
@[elab_as_elim]
theorem empty_induction {motive : ∀ (_ : Identifiers) (slots : List Slot), Empty wanted slots → Prop}
    (nil : ∀ ids h, motive ids [] h)
    (filled : ∀ ids s slots, wanted s.top = true → s.anchor = none → ∀ h,
      motive (ids.allocate s.text).2 slots (Empty.tail h) → motive ids (s :: slots) h)
    (passed : ∀ ids s slots, wanted s.top = false → ∀ h,
      motive ids slots (Empty.tail h) → motive ids (s :: slots) h)
    (ids : Identifiers) (slots : List Slot) (h : Empty wanted slots) : motive ids slots h := by
  induction slots generalizing ids with
  | nil => exact nil ids h
  | cons s slots ih =>
    cases hw : wanted s.top with
    | false => exact passed ids s slots hw h (ih ids h.tail)
    | true => exact filled ids s slots hw (h s List.mem_cons_self hw) h (ih _ h.tail)

theorem mem_issued_fill (h : Empty wanted slots) {x : String} :
    x ∈ (fill wanted ids slots).2.issued ↔
      x ∈ ids.issued ∨ .text x ∈ given wanted (fill wanted ids slots).1 := by
  induction ids, slots, h using empty_induction with
  | nil ids _ => simp [fill, given]
  | filled ids s slots hw ha _ ih =>
    rw [given_fill_empty hw ha, fill_cons_empty hw ha, ih, Identifiers.mem_issued_allocate,
      List.mem_cons, Value.text.injEq, or_assoc]
  | passed ids s slots hw _ ih => rw [given_fill_other hw, fill_cons_other (.inl hw), ih]

theorem notMem_of_mem_given_fill (h : Empty wanted slots) {x : String}
    (hx : .text x ∈ given wanted (fill wanted ids slots).1) : x ∉ ids.issued := by
  rcases mem_given_fill hx with hx | ⟨y, hy, heq⟩
  · rw [given_of_empty h] at hx
    cases hx
  · rwa [Value.text.inj heq]

/-! ## Full slots -/

theorem filled_fill (wanted : Bool → Bool) (ids : Identifiers) (slots : List Slot) :
    Filled wanted (fill wanted ids slots).1 := by
  induction ids, slots using fill_induction wanted with
  | nil ids => exact fun s hs => absurd hs List.not_mem_nil
  | empty ids s slots hw ha ih =>
    rw [fill_cons_empty hw ha]
    exact List.forall_mem_cons.2 ⟨fun _ => rfl, ih⟩
  | other ids s slots hs ih =>
    rw [fill_cons_other hs]
    refine List.forall_mem_cons.2 ⟨fun hw => ?_, ih⟩
    rcases hs with hs | hs
    · rw [hs] at hw
      cases hw
    · exact hs

theorem Filled.fill {wanted' : Bool → Bool} (h : Filled wanted' slots) (wanted : Bool → Bool)
    (ids : Identifiers) : Filled wanted' (fill wanted ids slots).1 := by
  induction ids, slots using fill_induction wanted with
  | nil ids => exact h
  | empty ids s slots hw ha ih =>
    obtain ⟨-, hslots⟩ := List.forall_mem_cons.1 h
    rw [fill_cons_empty hw ha]
    exact List.forall_mem_cons.2 ⟨fun _ => rfl, ih hslots⟩
  | other ids s slots hs ih =>
    obtain ⟨hhead, hslots⟩ := List.forall_mem_cons.1 h
    rw [fill_cons_other hs]
    exact List.forall_mem_cons.2 ⟨hhead, ih hslots⟩

/-- Full slots are left as they are. -/
theorem fill_of_filled (h : Filled wanted slots) (ids : Identifiers) :
    Slot.fill wanted ids slots = (slots, ids) := by
  induction slots with
  | nil => rfl
  | cons s slots ih =>
    obtain ⟨hhead, hslots⟩ := List.forall_mem_cons.1 h
    have hs : wanted s.top = false ∨ s.anchor.isSome = true := by
      cases hw : wanted s.top with
      | false => exact .inl rfl
      | true => exact .inr (hhead hw)
    rw [fill_cons_other hs, ih hslots]

/-- Full slots hold what they held. -/
theorem given_fill_of_filled {wanted' : Bool → Bool} (h : Filled wanted' slots)
    (wanted : Bool → Bool) (ids : Identifiers) :
    given wanted' (Slot.fill wanted ids slots).1 = given wanted' slots := by
  induction ids, slots using fill_induction wanted with
  | nil ids => rfl
  | empty ids s slots hw ha ih =>
    obtain ⟨hhead, hslots⟩ := List.forall_mem_cons.1 h
    have hw' : wanted' s.top = false := by
      cases hw' : wanted' s.top with
      | false => rfl
      | true =>
        have := hhead hw'
        rw [ha] at this
        cases this
    rw [fill_cons_empty hw ha]
    rw [given_refilled hw', given_cons_other hw', ih hslots]
  | other ids s slots hs ih =>
    obtain ⟨-, hslots⟩ := List.forall_mem_cons.1 h
    rw [fill_cons_other hs, given, given, List.filterMap_cons, List.filterMap_cons, ← given,
      ← given, ih hslots]

/-- Whether a full slot is wanted makes no difference. -/
theorem fill_wanted_congr {wanted' : Bool → Bool}
    (h : ∀ s ∈ slots, s.anchor = none → wanted s.top = wanted' s.top) (ids : Identifiers) :
    Slot.fill wanted ids slots = Slot.fill wanted' ids slots := by
  induction ids, slots using fill_induction wanted with
  | nil ids => rfl
  | empty ids s slots hw ha ih =>
    obtain ⟨hhead, hslots⟩ := List.forall_mem_cons.1 h
    rw [fill_cons_empty hw ha, fill_cons_empty ((hhead ha).symm.trans hw) ha, ih hslots]
  | other ids s slots hs ih =>
    obtain ⟨hhead, hslots⟩ := List.forall_mem_cons.1 h
    have hs' : wanted' s.top = false ∨ s.anchor.isSome = true := by
      cases ha : s.anchor with
      | some v => exact .inr rfl
      | none =>
        refine .inl ((hhead ha).symm.trans (hs.resolve_right ?_))
        rw [ha]
        exact Bool.false_ne_true
    rw [fill_cons_other hs, fill_cons_other hs', ih hslots]

/-- Full slots hold one value each. -/
theorem length_given_all (h : Filled all slots) : (given all slots).length = slots.length := by
  induction slots with
  | nil => rfl
  | cons s slots ih =>
    obtain ⟨hhead, hslots⟩ := List.forall_mem_cons.1 h
    obtain ⟨v, hv⟩ := Option.isSome_iff_exists.1 (hhead rfl)
    rw [given_cons_some (show all s.top = true from rfl) hv, List.length_cons, List.length_cons,
      ih hslots]

theorem given_eq_filter (wanted : Bool → Bool) (slots : List Slot) :
    given wanted slots = given all (slots.filter fun s => wanted s.top) := by
  rw [given, given, List.filterMap_filter]
  rfl

/-! ## Distinct slots -/

/-- No two slots hold the same, and what they hold are identifiers in use. -/
structure Distinct (ids : Identifiers) (slots : List Slot) : Prop where
  nodup : (given all slots).Nodup
  issued : ∀ v ∈ given all slots, ∃ x ∈ ids.issued, v = .text x

theorem Distinct.nodup_given (h : Distinct ids slots) (wanted : Bool → Bool) :
    (given wanted slots).Nodup := by
  rw [given_eq_filter]
  exact h.nodup.sublist (List.filter_sublist.filterMap _)

theorem Distinct.of_empty (ids : Identifiers) (h : Empty all slots) : Distinct ids slots := by
  constructor
  · rw [given_of_empty h]
    exact List.nodup_nil
  · rw [given_of_empty h]
    exact nofun

theorem Distinct.mono {more : Identifiers} (h : Distinct ids slots)
    (hsub : ids.issued ⊆ more.issued) : Distinct more slots :=
  ⟨h.nodup, fun v hv => (h.issued v hv).imp fun _ hx => ⟨hsub hx.1, hx.2⟩⟩

theorem Distinct.tail (h : Distinct ids (s :: slots)) : Distinct ids slots := by
  refine ⟨?_, fun v hv => h.issued v (mem_given_cons.2 (.inr hv))⟩
  have hnodup := h.nodup
  cases ha : s.anchor with
  | none => rwa [given_cons_none ha] at hnodup
  | some u =>
    rw [given_cons_some (show all s.top = true from rfl) ha, List.nodup_cons] at hnodup
    exact hnodup.2

/-- A slot with an identifier in use that none of the others holds leaves them distinct. -/
theorem Distinct.cons (h : Distinct ids slots) {x : String} (ha : s.anchor = some (.text x))
    (hissued : x ∈ ids.issued) (hnew : .text x ∉ given all slots) : Distinct ids (s :: slots) := by
  have hall : all s.top = true := rfl
  constructor
  · rw [given_cons_some hall ha]
    exact List.nodup_cons.2 ⟨hnew, h.nodup⟩
  · intro v hv
    rcases mem_given_cons.1 hv with ⟨-, hv⟩ | hv
    · exact ⟨x, hissued, Option.some.inj (hv.symm.trans ha)⟩
    · exact h.issued v hv

/-- An identifier in use that no slot holds is held by none after a pass. -/
theorem notMem_given_fill {x : String} (hissued : x ∈ ids.issued) (hx : .text x ∉ given all slots) :
    .text x ∉ given all (Slot.fill wanted ids slots).1 := by
  intro hmem
  rcases mem_given_fill hmem with hmem | ⟨y, hy, heq⟩
  · exact hx hmem
  · exact hy (Value.text.inj heq ▸ hissued)

/-- What slots hold stays distinct from pass to pass. -/
theorem Distinct.fill (h : Distinct ids slots) (wanted : Bool → Bool) :
    Distinct (Slot.fill wanted ids slots).2 (Slot.fill wanted ids slots).1 := by
  induction ids, slots using fill_induction wanted with
  | nil ids => exact h
  | empty ids s slots hw ha ih =>
    have hnew : ids.fresh s.text ∈ (ids.allocate s.text).2.issued :=
      Identifiers.mem_issued_allocate.2 (.inr rfl)
    have hrest := ih (h.tail.mono fun x hx => Identifiers.mem_issued_allocate.2 (.inl hx))
    rw [fill_cons_empty hw ha]
    refine hrest.cons rfl (subset_issued_fill _ _ _ hnew) (notMem_given_fill hnew fun hmem => ?_)
    obtain ⟨x, hx, heq⟩ := h.tail.issued _ hmem
    exact ids.fresh_notMem s.text (Value.text.inj heq ▸ hx)
  | other ids s slots hs ih =>
    have hrest := ih h.tail
    rw [fill_cons_other hs]
    cases ha : s.anchor with
    | none =>
      constructor
      · rw [given_cons_none ha]
        exact hrest.nodup
      · rw [given_cons_none ha]
        exact hrest.issued
    | some u =>
      have hall : all s.top = true := rfl
      obtain ⟨x, hx, rfl⟩ := h.issued u (mem_given_cons.2 (.inl ⟨hall, ha⟩))
      have hnodup := h.nodup
      rw [given_cons_some hall ha] at hnodup
      exact hrest.cons ha (subset_issued_fill _ _ _ hx)
        (notMem_given_fill hx (List.nodup_cons.1 hnodup).1)

/-! ## The pool -/

/-- More identifiers in use make a difference only if one of them would have been given. -/
theorem fill_eq_of_subset (h : Empty wanted slots) {more : Identifiers}
    (hfallback : more.fallback = ids.fallback) (hsub : ids.issued ⊆ more.issued)
    (hfree : ∀ x, .text x ∈ given wanted (fill wanted ids slots).1 → x ∉ more.issued) :
    (Slot.fill wanted more slots).1 = (Slot.fill wanted ids slots).1 := by
  induction ids, slots, h using empty_induction generalizing more with
  | nil ids _ => rfl
  | filled ids s slots hw ha h ih =>
    rw [given_fill_empty hw ha] at hfree
    have hfresh : more.fresh s.text = ids.fresh s.text :=
      Identifiers.fresh_eq_of_subset hfallback hsub (hfree _ List.mem_cons_self)
    rw [fill_cons_empty hw ha, fill_cons_empty hw ha, hfresh]
    have hafter : (more.allocate s.text).2.fallback = (ids.allocate s.text).2.fallback := hfallback
    refine congrArg (_ :: ·) (ih hafter (Identifiers.issued_allocate_subset hsub hfresh) ?_)
    intro x hx hmem
    rw [Identifiers.mem_issued_allocate, hfresh] at hmem
    rcases hmem with hmem | rfl
    · exact hfree x (List.mem_cons_of_mem _ hx) hmem
    · exact notMem_of_mem_given_fill h.tail hx (Identifiers.mem_issued_allocate.2 (.inr rfl))
  | passed ids s slots hw _ ih =>
    rw [given_fill_other hw] at hfree
    rw [fill_cons_other (.inl hw), fill_cons_other (.inl hw), ih hfallback hsub hfree]

/-- Only the set of the identifiers in use counts. -/
theorem fill_congr {more : Identifiers} (hfallback : more.fallback = ids.fallback)
    (hsame : ∀ x, x ∈ more.issued ↔ x ∈ ids.issued) (wanted : Bool → Bool) (slots : List Slot) :
    (Slot.fill wanted more slots).1 = (Slot.fill wanted ids slots).1 := by
  induction ids, slots using fill_induction wanted generalizing more with
  | nil ids => rfl
  | empty ids s slots hw ha ih =>
    have hfresh : more.fresh s.text = ids.fresh s.text :=
      Identifiers.fresh_eq_of_subset hfallback (fun x hx => (hsame x).2 hx)
        fun hmem => ids.fresh_notMem s.text ((hsame _).1 hmem)
    have hallocate : ∀ x, x ∈ (more.allocate s.text).2.issued ↔ x ∈ (ids.allocate s.text).2.issued :=
      fun x => by
        rw [Identifiers.mem_issued_allocate, Identifiers.mem_issued_allocate, hsame, hfresh]
    have hafter : (more.allocate s.text).2.fallback = (ids.allocate s.text).2.fallback := hfallback
    rw [fill_cons_empty hw ha, fill_cons_empty hw ha, hfresh, ih hafter hallocate]
  | other ids s slots hs ih =>
    rw [fill_cons_other hs, fill_cons_other hs, ih hfallback hsame]

end
end Slot
end RouteDocs
