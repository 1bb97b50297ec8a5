import RouteDocs.Proofs.Slot.Fill

/-!
# The order of filling slots

The routes of a document fill the slots at the top of the page, the index fills
all that it lists. So what a slot is given depends on the order in which the two
are asked for, but not on much of it.

Results:
* `Splits.top`, `Splits.other`, `fill_split`: one pass and two, slot by slot.
* `fill_all_eq_iff`: when filling the slots at the top beforehand makes no difference.
* `fill_others_of_filled`, `fill_tops_after_others`: when two passes are one.
* `fresh_fill_eq_iff`, `fill_allocate_eq`: when handing out an identifier beforehand makes no
  difference.
-/
namespace RouteDocs.Slot

def tops : Bool → Bool := id

def others : Bool → Bool := not

section
variable {wanted : Bool → Bool} {ids : Identifiers} {s : Slot} {slots : List Slot}

theorem mem_given_all_iff {v : Value} :
    v ∈ given all slots ↔ v ∈ given tops slots ∨ v ∈ given others slots := by
  induction slots with
  | nil => simp [given]
  | cons s slots ih =>
    rw [mem_given_cons, mem_given_cons, mem_given_cons, ih, all, tops, others]
    cases s.top <;> simp [or_assoc, or_left_comm]

theorem notMem_given_others (h : (given all slots).Nodup) {v : Value} (hv : v ∈ given tops slots) :
    v ∉ given others slots := by
  induction slots with
  | nil => cases hv
  | cons s slots ih =>
    intro hv'
    rw [mem_given_cons] at hv hv'
    have hslots : (given all slots).Nodup := by
      cases ha : s.anchor with
      | none => rwa [given_cons_none ha] at h
      | some u =>
        rw [given_cons_some (show all s.top = true from rfl) ha, List.nodup_cons] at h
        exact h.2
    have hhead : s.anchor = some v → v ∉ given all slots := by
      intro ha
      rw [given_cons_some (show all s.top = true from rfl) ha, List.nodup_cons] at h
      exact h.1
    rcases hv with ⟨htop, ha⟩ | hv
    · rcases hv' with ⟨hother, -⟩ | hv'
      · rw [tops, id] at htop
        rw [others, htop] at hother
        cases hother
      · exact hhead ha (mem_given_all_iff.2 (.inr hv'))
    · rcases hv' with ⟨-, ha⟩ | hv'
      · exact hhead ha (mem_given_all_iff.2 (.inl hv))
      · exact ih hslots hv hv'

/-- The slots at the top hold all that is held exactly if there are no others. -/
theorem given_all_eq_tops_iff (h : Filled all slots) :
    given all slots = given tops slots ↔ ∀ s ∈ slots, s.top = true := by
  constructor
  · intro heq
    have hlength := congrArg List.length heq
    rw [given_eq_filter tops, length_given_all h,
      length_given_all fun s hs => h s (List.mem_filter.1 hs).1] at hlength
    exact List.length_filter_eq_length_iff.1 hlength.symm
  · intro htop
    have hfilter : slots.filter (fun s => tops s.top) = slots := List.filter_eq_self.2 htop
    rw [given_eq_filter tops, hfilter]

/-- Where no two slots hold the same, those at the top and the others hold the same only if there
are none. -/
theorem given_others_eq_tops_iff (h : Filled all slots) (hnodup : (given all slots).Nodup) :
    given others slots = given tops slots ↔ slots = [] := by
  constructor
  · intro heq
    have hnone : ∀ v, v ∉ given tops slots := fun v hv =>
      notMem_given_others hnodup hv (heq ▸ hv)
    have hempty : given all slots = [] := List.eq_nil_iff_forall_not_mem.2 fun v hv => by
      rcases mem_given_all_iff.1 hv with hv | hv
      · exact hnone v hv
      · exact hnone v (heq ▸ hv)
    rw [← List.length_eq_zero_iff, ← length_given_all h, hempty]
    rfl
  · rintro rfl
    rfl

/-! ## The slots at the top first -/

/-- One pass over slots can be split into a first over those at the top and a second over the
others: what the first pass gives is not in the way of the one pass, and what that gives to the
other slots is not in use in the second. -/
structure Splits (one first second : Identifiers) (slots : List Slot) : Prop where
  empty : Empty all slots
  fallbackOne : one.fallback = first.fallback
  fallbackSecond : second.fallback = one.fallback
  subsetOne : first.issued ⊆ one.issued
  subsetSecond : one.issued ⊆ second.issued
  subsetFirst : (fill tops first slots).2.issued ⊆ second.issued
  givenTops : ∀ x, .text x ∈ given tops (fill tops first slots).1 →
    x ∉ one.issued ∧ .text x ∉ given others (fill all one slots).1
  givenOthers : ∀ x, .text x ∈ given others (fill all one slots).1 → x ∉ second.issued

section
variable {one first second : Identifiers}

theorem Splits.fresh_top (h : Splits one first second (s :: slots)) (hs : s.top = true) :
    one.fresh s.text = first.fresh s.text := by
  have htops := h.givenTops
  rw [given_fill_empty hs (h.empty s List.mem_cons_self rfl)] at htops
  exact Identifiers.fresh_eq_of_subset h.fallbackOne h.subsetOne (htops _ List.mem_cons_self).1

theorem Splits.top (h : Splits one first second (s :: slots)) (hs : s.top = true) :
    Splits (one.allocate s.text).2 (first.allocate s.text).2 second slots := by
  have ha : s.anchor = none := h.empty s List.mem_cons_self rfl
  have htop : tops s.top = true := hs
  have hother : others s.top = false := by rw [others, hs]; rfl
  have hempty : Empty tops slots := h.empty.tail.mono
  have hfresh := h.fresh_top hs
  have hrest : given others (fill all one (s :: slots)).1 =
      given others (fill all (one.allocate s.text).2 slots).1 := by
    rw [fill_cons_empty (show all s.top = true from rfl) ha]
    exact given_refilled hother _
  obtain ⟨hslots, hfallback, hfallback', hsub, hsub', hfirst, htops, hothers⟩ := h
  rw [fill_cons_empty htop ha] at hfirst
  rw [given_fill_empty htop ha, hrest] at htops
  rw [hrest] at hothers
  have hnew : first.fresh s.text ∈ (first.allocate s.text).2.issued :=
    Identifiers.mem_issued_allocate.2 (.inr rfl)
  constructor
  case empty => exact hslots.tail
  case fallbackOne => exact hfallback
  case fallbackSecond => exact hfallback'
  case subsetOne => exact Identifiers.issued_allocate_subset hsub hfresh
  case subsetFirst => exact hfirst
  case subsetSecond =>
    intro x hx
    rw [Identifiers.mem_issued_allocate, hfresh] at hx
    rcases hx with hx | rfl
    · exact hsub' hx
    · exact hfirst (subset_issued_fill _ _ _ hnew)
  case givenTops =>
    refine fun x hx => ⟨fun hmem => ?_, (htops x (List.mem_cons_of_mem _ hx)).2⟩
    rw [Identifiers.mem_issued_allocate, hfresh] at hmem
    rcases hmem with hmem | rfl
    · exact (htops x (List.mem_cons_of_mem _ hx)).1 hmem
    · exact notMem_of_mem_given_fill hempty hx hnew
  case givenOthers => exact hothers

theorem given_others_fill_cons (hs : s.top = false) (ha : s.anchor = none) :
    given others (fill all one (s :: slots)).1 =
      .text (one.fresh s.text) :: given others (fill all (one.allocate s.text).2 slots).1 := by
  have hother : others s.top = true := by rw [others, hs]; rfl
  rw [fill_cons_empty (show all s.top = true from rfl) ha, given, List.filterMap_cons,
    if_pos hother]
  rfl

/-- Another slot is given the same in the one pass and in the second. -/
theorem Splits.fresh_other (h : Splits one first second (s :: slots)) (hs : s.top = false) :
    second.fresh s.text = one.fresh s.text := by
  have hothers := h.givenOthers
  rw [given_others_fill_cons hs (h.empty s List.mem_cons_self rfl)] at hothers
  exact Identifiers.fresh_eq_of_subset h.fallbackSecond h.subsetSecond
    (hothers _ List.mem_cons_self)

theorem Splits.other (h : Splits one first second (s :: slots)) (hs : s.top = false) :
    Splits (one.allocate s.text).2 first (second.allocate s.text).2 slots := by
  have htop : tops s.top = false := hs
  have hrest : given others (fill all one (s :: slots)).1 =
      .text (one.fresh s.text) :: given others (fill all (one.allocate s.text).2 slots).1 :=
    given_others_fill_cons hs (h.empty s List.mem_cons_self rfl)
  have hfresh := h.fresh_other hs
  obtain ⟨hslots, hfallback, hfallback', hsub, hsub', hfirst, htops, hothers⟩ := h
  rw [fill_cons_other (.inl htop)] at hfirst
  rw [given_fill_other htop, hrest] at htops
  rw [hrest] at hothers
  have hnew : one.fresh s.text ∈ (one.allocate s.text).2.issued :=
    Identifiers.mem_issued_allocate.2 (.inr rfl)
  constructor
  case empty => exact hslots.tail
  case fallbackOne => exact hfallback
  case fallbackSecond => exact hfallback'
  case subsetOne => exact fun x hx => Identifiers.mem_issued_allocate.2 (.inl (hsub hx))
  case subsetSecond => exact Identifiers.issued_allocate_subset hsub' hfresh
  case subsetFirst => exact fun x hx => Identifiers.mem_issued_allocate.2 (.inl (hfirst hx))
  case givenTops =>
    intro x hx
    obtain ⟨hold, hother⟩ := htops x hx
    refine ⟨fun hmem => ?_, fun hmem => hother (List.mem_cons_of_mem _ hmem)⟩
    rcases Identifiers.mem_issued_allocate.1 hmem with hmem | rfl
    · exact hold hmem
    · exact hother List.mem_cons_self
  case givenOthers =>
    intro x hx hmem
    rw [Identifiers.mem_issued_allocate, hfresh] at hmem
    rcases hmem with hmem | rfl
    · exact hothers x (List.mem_cons_of_mem _ hx) hmem
    · exact notMem_of_mem_given_fill hslots.tail (mem_given_all_iff.2 (.inr hx)) hnew

/-- Then the two passes fill the slots as the one does. -/
theorem fill_split (h : Splits one first second slots) :
    (fill all second (fill tops first slots).1).1 = (fill all one slots).1 := by
  induction slots generalizing one first second with
  | nil => rfl
  | cons s slots ih =>
    have ha : s.anchor = none := h.empty s List.mem_cons_self rfl
    have hall : all s.top = true := rfl
    cases hs : s.top with
    | true =>
      have htop : tops s.top = true := hs
      rw [fill_cons_empty htop ha, fill_cons_other (.inr rfl), ih (h.top hs),
        fill_cons_empty hall ha, h.fresh_top hs]
    | false =>
      have htop : tops s.top = false := hs
      rw [fill_cons_other (.inl htop), fill_cons_empty hall ha, ih (h.other hs),
        fill_cons_empty hall ha, h.fresh_other hs]

end

/-- Filling the slots at the top beforehand makes no difference exactly if none of them is given
what another slot is given in one pass. -/
theorem fill_all_eq_iff (ids : Identifiers) (h : Empty all slots) :
    (fill all (fill tops ids slots).2 (fill tops ids slots).1).1 = (fill all ids slots).1 ↔
      ∀ v ∈ given others (fill all ids slots).1, v ∉ given tops (fill tops ids slots).1 := by
  have hempty : Empty tops slots := h.mono
  constructor
  · intro heq v hother htop
    refine notMem_given_others ((Distinct.of_empty ids h).fill all |>.nodup) ?_ hother
    rwa [← heq, given_fill_of_filled (filled_fill tops ids slots)]
  · intro hapart
    refine fill_split ⟨h, rfl, fallback_fill tops ids slots, fun x hx => hx,
      fun x hx => (mem_issued_fill hempty).2 (.inl hx), fun x hx => hx, ?_, ?_⟩
    · exact fun x hx => ⟨notMem_of_mem_given_fill hempty hx, fun hmem => hapart _ hmem hx⟩
    · intro x hx hmem
      rcases (mem_issued_fill hempty).1 hmem with hmem | hmem
      · exact notMem_of_mem_given_fill h (mem_given_all_iff.2 (.inr hx)) hmem
      · exact hapart _ hx hmem

theorem fill_all_eq_of_given (h : Empty all slots)
    (hgiven : given tops (fill all ids slots).1 = given tops (fill tops ids slots).1) :
    (fill all (fill tops ids slots).2 (fill tops ids slots).1).1 = (fill all ids slots).1 := by
  refine (fill_all_eq_iff ids h).2 fun v hother htop => ?_
  rw [← hgiven] at htop
  exact notMem_given_others ((Distinct.of_empty ids h).fill all |>.nodup) htop hother

/-! ## Two passes as one -/

/-- After the slots at the top, to fill the others is to fill all. -/
theorem fill_others_of_filled (h : Filled tops slots) (ids : Identifiers) :
    Slot.fill others ids slots = Slot.fill all ids slots := by
  refine fill_wanted_congr (fun s hs ha => ?_) ids
  cases htop : s.top with
  | false => rfl
  | true =>
    have hfull := h s hs htop
    rw [ha] at hfull
    cases hfull

/-- Where the others come first, to fill them and then those at the top is to fill all. -/
theorem fill_tops_after_others {firsts lasts : List Slot} (hfirsts : ∀ s ∈ firsts, s.top = false)
    (hlasts : ∀ s ∈ lasts, s.top = true) (ids : Identifiers) :
    fill tops (fill others ids (firsts ++ lasts)).2 (fill others ids (firsts ++ lasts)).1 =
      fill all ids (firsts ++ lasts) := by
  have hfill : fill others ids firsts = fill all ids firsts :=
    fill_wanted_congr (fun s hs _ => by rw [others, all, hfirsts s hs]; rfl) ids
  have hleft : ∀ ids, fill others ids lasts = (lasts, ids) := fun ids =>
    fill_of_filled (fun s hs hw => by rw [others, hlasts s hs] at hw; cases hw) ids
  have htops : ∀ s ∈ (fill all ids firsts).1, s.top = false := by
    intro s hs
    have hmem : s.top ∈ (fill all ids firsts).1.map (·.top) := List.mem_map_of_mem hs
    rw [map_top_fill] at hmem
    obtain ⟨t, ht, heq⟩ := List.mem_map.1 hmem
    rw [← heq]
    exact hfirsts t ht
  have hkept : ∀ ids', fill tops ids' (fill all ids firsts).1 = ((fill all ids firsts).1, ids') :=
    fun ids' => fill_of_filled (fun s hs hw => by rw [tops, id, htops s hs] at hw; cases hw) ids'
  have hrest : ∀ ids, fill tops ids lasts = fill all ids lasts :=
    fill_wanted_congr fun s hs _ => hlasts s hs
  rw [fill_append, hleft, fill_append, hfill, hkept, hrest, fill_append]

/-! ## Handing out an identifier beforehand -/

/-- A text is given after the slots what it is given before them, unless a slot was given that. -/
theorem fresh_fill_eq_iff (ids : Identifiers) (name : String) (h : Empty wanted slots) :
    (fill wanted ids slots).2.fresh name = ids.fresh name ↔
      .text (ids.fresh name) ∉ given wanted (fill wanted ids slots).1 := by
  constructor
  · intro heq hmem
    have hissued := (mem_issued_fill h).2 (.inr hmem)
    rw [← heq] at hissued
    exact Identifiers.fresh_notMem _ name hissued
  · intro hfree
    refine Identifiers.fresh_eq_of_subset (fallback_fill wanted ids slots)
      (fun x hx => (mem_issued_fill h).2 (.inl hx)) fun hmem => ?_
    exact ((mem_issued_fill h).1 hmem).elim (ids.fresh_notMem name) hfree

/-- Then the slots are given the same, and the same identifiers are in use. -/
theorem fill_allocate_eq {name : String} (h : Empty wanted slots)
    (hfree : .text (ids.fresh name) ∉ given wanted (fill wanted ids slots).1) :
    (fill wanted (ids.allocate name).2 slots).1 = (fill wanted ids slots).1 ∧
      ∀ x, x ∈ (fill wanted (ids.allocate name).2 slots).2.issued ↔
        x ∈ ((fill wanted ids slots).2.allocate name).2.issued := by
  have hfill : (fill wanted (ids.allocate name).2 slots).1 = (fill wanted ids slots).1 := by
    refine fill_eq_of_subset h rfl (fun x hx => Identifiers.mem_issued_allocate.2 (.inl hx)) ?_
    rintro x hx hmem
    rcases Identifiers.mem_issued_allocate.1 hmem with hmem | rfl
    · exact notMem_of_mem_given_fill h hx hmem
    · exact hfree hx
  refine ⟨hfill, fun x => ?_⟩
  rw [mem_issued_fill h, hfill, Identifiers.mem_issued_allocate, Identifiers.mem_issued_allocate,
    mem_issued_fill h, (fresh_fill_eq_iff ids name h).2 hfree, or_right_comm]

end

end RouteDocs.Slot
