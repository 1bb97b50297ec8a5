import RouteDocs.Proofs.DefinitionList.Placed

/-!
# The merge in place

Where two lists have no element in common, or are one list, the merge in place
leaves the receiving list as the merge of their values. What carries the loop
over the lent terms: the terms still to come stand in the arena as they did at
the start, since a turn changes the one term of the receiving list that has the
text of the turn, and no other term has an element in common with that one.

Results:
* `Lending.exists_turn`: what the turn of a term does.
* `lend_spec`: the table of the receiving list after the terms have been lent.
* `mergeWithin_spec`: the receiving list after the merge.
-/
namespace RouteDocs.Arena

/-! ## The loop -/

section
variable {mergeLists : Arena → Nat → Nat → Option Arena} {a a' : Arena} {t : String} {p q : Term}
  {rest own : Entries String Term}

theorem lend_copied {copied : Term} (hown : Entries.get? own t = none)
    (hcopy : a.copyTerm q = some (copied, a')) :
    lend mergeLists a ((t, q) :: rest) own = lend mergeLists a' rest (Entries.put own t copied) := by
  rw [lend, hown]
  simp only [hcopy, Option.bind_eq_bind, Option.bind_some]

theorem lend_merged {i j : Nat} (hown : Entries.get? own t = some p)
    (hi : a.firstList? q.definition = some i) (hj : a.firstList? p.definition = some j)
    (hmerge : mergeLists a i j = some a') :
    lend mergeLists a ((t, q) :: rest) own = lend mergeLists a' rest own := by
  rw [lend, hown]
  simp only [hi, hj, hmerge, Option.bind_eq_bind, Option.bind_some]

theorem lend_kept (hown : Entries.get? own t = some p)
    (hnone : a.firstList? q.definition = none ∨ a.firstList? p.definition = none) :
    lend mergeLists a ((t, q) :: rest) own = lend mergeLists a rest own := by
  rw [lend, hown]
  rcases hnone with hnone | hnone
  · simp only [hnone]
  · cases a.firstList? q.definition <;> simp only [hnone]

end

/-- What holds whenever the next term is to be lent: the arena was changed at places `ps` only,
the tables stand in it, and a term to be lent has nothing in common with a term of the receiving
list unless it is that term. -/
structure Lending (start : Arena) (ps : List Nat) (a : Arena)
    (rest own : Entries String PlacedTerm) : Prop where
  changed : ChangedAt ps start a
  restKeys : (Entries.keys rest).Nodup
  ownKeys : (Entries.keys own).Nodup
  restStands : ∀ t q, (t, q) ∈ rest → a.StandsTerm q
  ownStands : ∀ t p, Entries.get? own t = some p → a.StandsTerm p
  within : ∀ t p, Entries.get? own t = some p → ∀ i ∈ p.places, i ∈ ps ∨ start.size ≤ i
  ownApart : ∀ t u p q, Entries.get? own t = some p → Entries.get? own u = some q → t ≠ u →
    p.places.Disjoint q.places
  meets : ∀ t q u p, (t, q) ∈ rest → Entries.get? own u = some p →
    t = u ∧ q = p ∨ q.places.Disjoint p.places

/-- A term with which the turn of a text may end: it stands in the arena, in places that are new
or were those of the term before. -/
structure Turn (a a' : Arena) (before : Option PlacedTerm) (after : PlacedTerm) : Prop where
  changed : ChangedAt (before.elim [] PlacedTerm.places) a a'
  stands : a'.StandsTerm after
  within : ∀ i ∈ after.places, (∃ p ∈ before, i ∈ p.places) ∨ a.size ≤ i

section
variable {start a a' : Arena} {ps : List Nat} {t : String} {q after : PlacedTerm}
  {rest own : Entries String PlacedTerm}

theorem StandsTerm.lt_size {p : PlacedTerm} (h : a.StandsTerm p) : ∀ i ∈ p.places, i < a.size :=
  h.holds.lt_size

/-- What has nothing in common with a term before its turn has nothing in common with it after. -/
theorem Turn.disjoint {before : Option PlacedTerm} (h : Turn a a' before after) {p : PlacedTerm}
    (hp : a.StandsTerm p) (hbefore : ∀ r ∈ before, p.places.Disjoint r.places) :
    p.places.Disjoint after.places := by
  intro i hi hafter
  rcases h.within i hafter with ⟨r, hr, hmem⟩ | hle
  · exact hbefore r hr hi hmem
  · exact Nat.not_lt.2 hle (hp.lt_size i hi)

theorem Turn.standsTerm {before : Option PlacedTerm} (h : Turn a a' before after) {p : PlacedTerm}
    (hp : a.StandsTerm p) (hbefore : ∀ r ∈ before, p.places.Disjoint r.places) :
    a'.StandsTerm p := by
  refine h.changed.standsTerm hp ?_
  cases before with
  | none => exact List.disjoint_nil_right _
  | some r => exact hbefore r rfl

/-- After a turn the next term is to be lent. -/
theorem Lending.turn (h : Lending start ps a ((t, q) :: rest) own)
    (hturn : Turn a a' (Entries.get? own t) after) :
    Lending start ps a' rest (Entries.put own t after) := by
  have hkeys := h.restKeys
  rw [Entries.keys, List.map_cons, List.nodup_cons] at hkeys
  -- neither the terms to come nor the other terms of the list meet the term of this turn
  have hrest : ∀ u r, (u, r) ∈ rest → ∀ p ∈ Entries.get? own t, r.places.Disjoint p.places := by
    intro u r hr p hp
    refine (h.meets u r t p (List.mem_cons_of_mem _ hr) hp).resolve_left fun hsame => ?_
    exact hkeys.1 (hsame.1 ▸ Entries.mem_keys_of_mem hr)
  have hown : ∀ u p, t ≠ u → Entries.get? own u = some p → ∀ r ∈ Entries.get? own t,
      p.places.Disjoint r.places :=
    fun u p hne hp r hr => h.ownApart u t p r hp hr (Ne.symm hne)
  have hrestStands u r (hr : (u, r) ∈ rest) := h.restStands u r (List.mem_cons_of_mem _ hr)
  refine ⟨h.changed.trans hturn.changed ?_, hkeys.2, Entries.nodup_put h.ownKeys t after,
    fun u r hr => hturn.standsTerm (hrestStands u r hr) (hrest u r hr), ?_, ?_, ?_, ?_⟩
  · cases hbefore : Entries.get? own t with
    | none => exact fun i hi => absurd hi List.not_mem_nil
    | some p => exact h.within t p hbefore
  · intro u p hp
    rcases Entries.get?_put_eq_some_iff.1 hp with ⟨-, rfl⟩ | ⟨hu, hp⟩
    · exact hturn.stands
    · exact hturn.standsTerm (h.ownStands u p hp) (hown u p hu hp)
  · intro u p hp i hi
    rcases Entries.get?_put_eq_some_iff.1 hp with ⟨-, rfl⟩ | ⟨-, hp⟩
    · rcases hturn.within i hi with ⟨r, hr, hmem⟩ | hle
      · exact h.within t r hr i hmem
      · exact .inr (Nat.le_trans h.changed.size_le hle)
    · exact h.within u p hp i hi
  · intro u v p r hp hr hne
    rcases Entries.get?_put_eq_some_iff.1 hp with ⟨rfl, rfl⟩ | ⟨hu, hp⟩ <;>
      rcases Entries.get?_put_eq_some_iff.1 hr with ⟨rfl, rfl⟩ | ⟨hv, hr⟩
    · exact absurd rfl hne
    · exact (hturn.disjoint (h.ownStands v r hr) (hown v r hv hr)).symm
    · exact hturn.disjoint (h.ownStands u p hp) (hown u p hu hp)
    · exact h.ownApart u v p r hp hr hne
  · intro u r v p hr hp
    rcases Entries.get?_put_eq_some_iff.1 hp with ⟨-, rfl⟩ | ⟨-, hp⟩
    · exact .inr (hturn.disjoint (hrestStands u r hr) (hrest u r hr))
    · exact h.meets u r v p (List.mem_cons_of_mem _ hr) hp

end

/-! ## One turn -/

/-- A list after a merge: it is where it was, it reads as the merge of the two, and what else it
holds is new. -/
structure Merged (a a' : Arena) (x y result : Placed) : Prop where
  changed : ChangedAt y.places a a'
  stands : a'.Stands result
  item : result.item = y.item
  node : result.node = x.node.mergeList y.node
  within : ∀ i ∈ result.places, i ∈ y.places ∨ a.size ≤ i

/-- A way to merge lists in place that does so wherever the first list has at most `bound`
elements. -/
def MergesUpTo (bound : Nat) (mergeLists : Arena → Nat → Nat → Option Arena) : Prop :=
  ∀ ⦃a : Arena⦄ ⦃x y : Placed⦄ ⦃i j : Nat⦄, a.Stands x → a.Stands y → x.item = .element i →
    y.item = .element j → x = y ∨ x.places.Disjoint y.places → x.places.length ≤ bound →
    ∃ a' result, mergeLists a i j = some a' ∧ Merged a a' x y result

section
variable {a a' : Arena} {p q : PlacedTerm}

theorem turn_of_copy (hq : a.StandsTerm q) :
    ∃ a' copied, a.copyTerm q.term = some (copied.term, a') ∧ copied.pair = q.pair ∧
      Turn a a' none copied := by
  obtain ⟨u, b, hcopy, hnode, hnew⟩ := copy_spec (hq.stands _ List.mem_cons_self)
  have hthere : ∀ t ∈ q.definition, b.Stands t := fun t ht =>
    hnew.changed.stands (hq.stands t (List.mem_cons_of_mem _ ht)) (List.disjoint_nil_right _)
  obtain ⟨us, c, hcopies, hnodes, hnews⟩ := copyAll_spec hthere
  cases u with
  | text s => cases hnode
  | element i name as cs =>
    rw [PlacedTerm.marker, Placed.node, Placed.node, Node.element.injEq, Placed.nodes_eq_map,
      Placed.nodes_eq_map] at hnode
    obtain ⟨rfl, rfl, hlabel⟩ := hnode
    have hall := hnew.append hnews
    refine ⟨c, ⟨i, q.attributes, cs, us⟩, ?_, ?_, hall.changed, ⟨hall.holds, hall.nodup⟩, ?_⟩
    · rw [copyTerm, PlacedTerm.term, hcopy]
      simp only [Option.bind_eq_bind, Option.bind_some, hcopies]
      rfl
    · rw [PlacedTerm.pair, PlacedTerm.pair, hlabel, hnodes]
    · exact fun j hj => .inr (hall.fresh j hj)

/-- A stretch of distinct places replaced by places of its own and new ones. -/
theorem nodup_replace {front ps back qs : List Nat} {n : Nat} (h : (front ++ (ps ++ back)).Nodup)
    (hlt : ∀ i ∈ front ++ (ps ++ back), i < n) (hqs : qs.Nodup)
    (hwithin : ∀ i ∈ qs, i ∈ ps ∨ n ≤ i) : (front ++ (qs ++ back)).Nodup := by
  simp only [List.nodup_append, List.mem_append] at h hlt ⊢
  grind

theorem turn_of_merged {before after before' after' : List Placed} {x y result : Placed}
    {i j : Nat} (hp : a.StandsTerm p) (hx : a.PlacedListAt before x i after q.definition)
    (hy : a.PlacedListAt before' y j after' p.definition) (h : Merged a a' x y result) :
    let taken : PlacedTerm := { p with definition := before' ++ result :: after' }
    taken.term = p.term ∧ taken.pair = DefinitionList.absorb (some q.pair) p.pair ∧
      Turn a a' (some p) taken := by
  intro taken
  have hcons (t : Placed) : Placed.placesAll (t :: after') = t.places ++ Placed.placesAll after' :=
    rfl
  have htrees : p.trees = (p.marker :: before') ++ y :: after' := congrArg (p.marker :: ·) hy.split
  have hplaces : p.places =
      Placed.placesAll (p.marker :: before') ++ (y.places ++ Placed.placesAll after') := by
    rw [PlacedTerm.places, htrees, Placed.placesAll_append, hcons]
  have htaken : taken.places =
      Placed.placesAll (p.marker :: before') ++ (result.places ++ Placed.placesAll after') := by
    have htrees' : taken.trees = (p.marker :: before') ++ result :: after' := rfl
    rw [PlacedTerm.places, htrees', Placed.placesAll_append, hcons]
  -- what stands around the nested list has no element in common with it
  obtain ⟨hfront, -, hback⟩ := holdsAll_append.1 (htrees ▸ hp.holds)
  obtain ⟨-, hrest, hapart⟩ := List.nodup_append'.1 (hplaces ▸ hp.nodup)
  have hfrontApart : (Placed.placesAll (p.marker :: before')).Disjoint y.places :=
    List.disjoint_of_subset_right (List.subset_append_left _ _) hapart
  have hbackApart : (Placed.placesAll after').Disjoint y.places :=
    (List.disjoint_of_nodup_append hrest).symm
  refine ⟨?_, ?_, h.changed.mono ?_, ⟨?_, ?_⟩, ?_⟩
  · simp only [taken, PlacedTerm.term, PlacedTerm.marker, hy.split, List.map_append,
      List.map_cons, h.item]
  · have hmap := hy.value.mapFirstList_eq (DefinitionList.merge x.node.children)
    rw [← Node.mergeList, ← h.node] at hmap
    rw [DefinitionList.definition_absorb hx.value.firstList?_eq, PlacedTerm.pair]
    simp only [taken, PlacedTerm.pair, List.map_append, List.map_cons, hmap]
  · intro k hk
    rw [Option.elim, hplaces]
    exact List.mem_append_right _ (List.mem_append_left _ hk)
  · have hlist : a'.HoldsAll (result :: after') :=
      ⟨h.stands.holds, h.changed.holdsAll hback hbackApart⟩
    exact holdsAll_append.2 ⟨h.changed.holdsAll hfront hfrontApart, hlist⟩
  · rw [htaken]
    exact nodup_replace (hplaces ▸ hp.nodup) (hplaces ▸ hp.lt_size) h.stands.nodup h.within
  · intro k hk
    rw [htaken, List.mem_append, List.mem_append] at hk
    have hmem : k ∈ p.places ∨ a.size ≤ k := by
      rw [hplaces, List.mem_append, List.mem_append]
      rcases hk with hk | hk | hk
      · exact .inl (.inl hk)
      · exact (h.within k hk).imp_left fun hy => .inr (.inl hy)
      · exact .inl (.inr (.inr hk))
    exact hmem.imp_left fun hk => ⟨p, rfl, hk⟩

end

/-! ## The terms one after the other -/

/-- What stands under a text when what is lent under it has met what stands there. -/
def met (lent own : Option TermPair) : Option TermPair :=
  (own.map (DefinitionList.absorb lent)).or lent

section
variable {mergeLists : Arena → Nat → Nat → Option Arena} {depth : Nat} {start a : Arena}
  {ps : List Nat} {t : String} {q : PlacedTerm} {rest own : Entries String PlacedTerm}

theorem PlacedListAt.mem_trees {p : PlacedTerm} {before after : List Placed} {x : Placed}
    {i : Nat} (hx : a.PlacedListAt before x i after p.definition) : x ∈ p.trees := by
  rw [PlacedTerm.trees, hx.split]
  simp

/-- Trees have only one first list. -/
theorem PlacedListAt.find?_eq {ts before after : List Placed} {x : Placed} {i : Nat}
    (hx : a.PlacedListAt before x i after ts) :
    ts.find? (Placed.isA .definitionList) = some x := by
  refine List.find?_eq_some_iff_append.2 ⟨hx.value.isList, before, after, hx.split, ?_⟩
  intro t ht
  rw [Placed.isA, hx.value.noneBefore t.node (List.mem_map_of_mem ht)]
  rfl

theorem asTerms_put (own : Entries String PlacedTerm) (t : String) (p : PlacedTerm) :
    asTerms (Entries.put own t p) = Entries.put (asTerms own) t p.term :=
  (Entries.put_map PlacedTerm.term own t p).symm

theorem get?_asTerms (own : Entries String PlacedTerm) (t : String) :
    Entries.get? (asTerms own) t = (Entries.get? own t).map PlacedTerm.term :=
  Entries.get?_map (fun _ => PlacedTerm.term) own t

theorem exists_merged (hmerges : MergesUpTo depth mergeLists) {p : PlacedTerm}
    {before after before' after' : List Placed} {x y : Placed} {i j : Nat}
    (hq : a.StandsTerm q) (hp : a.StandsTerm p) (hdepth : q.places.length ≤ depth)
    (hmeets : q = p ∨ q.places.Disjoint p.places)
    (hx : a.PlacedListAt before x i after q.definition)
    (hy : a.PlacedListAt before' y j after' p.definition) :
    ∃ a' result, mergeLists a i j = some a' ∧ Merged a a' x y result := by
  have hxq := Placed.places_sublist hx.mem_trees
  have hyp := Placed.places_sublist hy.mem_trees
  refine hmerges (hq.stands x hx.mem_trees) (hp.stands y hy.mem_trees) hx.item hy.item ?_
    (Nat.le_trans hxq.length_le hdepth)
  rcases hmeets with rfl | hapart
  · exact .inl (Option.some.inj (hx.find?_eq.symm.trans hy.find?_eq))
  · exact .inr (List.disjoint_of_subset_left hxq.subset
      (List.disjoint_of_subset_right hyp.subset hapart))

theorem turn_of_kept {p : PlacedTerm} (hp : a.StandsTerm p)
    (habsorb : DefinitionList.absorb (some q.pair) p.pair = p.pair) :
    Turn a a (some p) p ∧ some p.pair = met (some q.pair) (some p.pair) := by
  refine ⟨⟨.refl _ a, hp, fun i hi => .inl ⟨p, rfl, hi⟩⟩, ?_⟩
  rw [met, Option.map_some, habsorb, Option.some_or]

/-- The turn of the next term: it leaves under its text what the two terms are when they have met,
and the arena ready for the terms that follow. -/
theorem Lending.exists_turn (h : Lending start ps a ((t, q) :: rest) own)
    (hmerges : MergesUpTo depth mergeLists) (hdepth : q.places.length ≤ depth) :
    ∃ a' after, Turn a a' (Entries.get? own t) after ∧
      some after.pair = met (some q.pair) ((Entries.get? own t).map PlacedTerm.pair) ∧
      lend mergeLists a (asTerms ((t, q) :: rest)) (asTerms own) =
        lend mergeLists a' (asTerms rest) (asTerms (Entries.put own t after)) := by
  have hq : a.StandsTerm q := h.restStands t q List.mem_cons_self
  have hget := get?_asTerms own t
  cases hown : Entries.get? own t with
  | none =>
    rw [hown] at hget
    obtain ⟨a', copied, hcopy, hpair, hturn⟩ := turn_of_copy hq
    refine ⟨a', copied, hturn, by rw [hpair]; rfl, ?_⟩
    rw [asTerms_put]
    exact lend_copied hget hcopy
  | some p =>
    rw [hown] at hget
    have hp : a.StandsTerm p := h.ownStands t p hown
    have hkeep : Entries.put own t p = own := Entries.put_of_get? hown
    rcases placedList_cases hq.holds.2 with ⟨hitems, hnodes⟩ | ⟨before, x, i, after, hx⟩
    · have habsorb : DefinitionList.absorb (some q.pair) p.pair = p.pair := by
        rw [DefinitionList.absorb_some, PlacedTerm.pair, hnodes]
      obtain ⟨hturn, hmet⟩ := turn_of_kept hp habsorb
      refine ⟨a, p, hturn, hmet, ?_⟩
      rw [hkeep]
      exact lend_kept hget (.inl hitems)
    rcases placedList_cases hp.holds.2 with ⟨hitems, hnodes⟩ | ⟨before', y, j, after', hy⟩
    · have habsorb : DefinitionList.absorb (some q.pair) p.pair = p.pair := by
        refine (DefinitionList.absorb_eq_self_iff q.pair p.pair).2 fun _ _ _ hfirst => ?_
        cases hnodes.symm.trans hfirst
      obtain ⟨hturn, hmet⟩ := turn_of_kept hp habsorb
      refine ⟨a, p, hturn, hmet, ?_⟩
      rw [hkeep]
      exact lend_kept hget (.inr hitems)
    -- lists are nested in both terms: the items of the term stay, its value is the merge
    have hmeets := (h.meets t q t p List.mem_cons_self hown).imp_left And.right
    obtain ⟨a', result, hmerge, hmerged⟩ := exists_merged hmerges hq hp hdepth hmeets hx hy
    obtain ⟨hterm, hpair, hturn⟩ := turn_of_merged hp hx hy hmerged
    refine ⟨a', _, hturn, by rw [hpair]; rfl, ?_⟩
    rw [asTerms_put, hterm, Entries.put_of_get? hget]
    exact lend_merged hget hx.first hy.first hmerge

theorem met_none (own : Option TermPair) : met none own = own := by
  cases own <;> rfl

/-- All terms of a table lent, one after the other: under each text stands what the two terms are
when they have met. -/
theorem lend_spec (hmerges : MergesUpTo depth mergeLists) (h : Lending start ps a rest own)
    (hdepth : ∀ t q, (t, q) ∈ rest → q.places.length ≤ depth) :
    ∃ a' own', lend mergeLists a (asTerms rest) (asTerms own) = some (a', asTerms own') ∧
      Lending start ps a' [] own' ∧ ∀ u, (Entries.get? own' u).map PlacedTerm.pair =
        met ((Entries.get? rest u).map PlacedTerm.pair)
          ((Entries.get? own u).map PlacedTerm.pair) := by
  induction rest generalizing a own with
  | nil => exact ⟨a, own, rfl, h, fun u => (met_none _).symm⟩
  | cons e rest ih =>
    obtain ⟨t, q⟩ := e
    obtain ⟨b, after, hturn, hpair, hlend⟩ :=
      h.exists_turn hmerges (hdepth t q List.mem_cons_self)
    obtain ⟨a', own', hrun, hend, hget⟩ :=
      ih (h.turn hturn) fun u r hr => hdepth u r (List.mem_cons_of_mem _ hr)
    refine ⟨a', own', hlend.trans hrun, hend, fun u => ?_⟩
    rw [hget, Entries.get?_put, Entries.get?]
    by_cases hu : t = u
    · subst hu
      -- the text of the turn does not come again
      have hgone : Entries.get? rest t = none := by
        refine Option.eq_none_iff_forall_ne_some.2 fun r hr => ?_
        exact (List.nodup_cons.1 h.restKeys).1 (Entries.mem_keys_of_mem (Entries.mem_of_get? hr))
      rw [hgone, if_pos rfl, if_pos rfl]
      exact (met_none _).trans hpair
    · rw [if_neg hu, if_neg hu]

end

/-! ## The whole merge -/

section
variable {a : Arena} {own : Entries String PlacedTerm}

def inTextOrder (table : Entries String PlacedTerm) : Entries String PlacedTerm :=
  table.mergeSort fun a b => a.1 ≤ b.1

theorem mergeSort_map {β : Type} (f : PlacedTerm → β) (table : Entries String PlacedTerm) :
    (table.map fun (t, p) => (t, f p)).mergeSort (fun a b => a.1 ≤ b.1) =
      (inTextOrder table).map fun (t, p) => (t, f p) := by
  have hsame : ∀ e ∈ table, ∀ e' ∈ table, decide (e.1 ≤ e'.1) = decide (e.1 ≤ e'.1) :=
    fun _ _ _ _ => rfl
  exact (List.map_mergeSort hsame).symm

theorem inOrder_asTerms (table : Entries String PlacedTerm) :
    inOrder (asTerms table) = asTerms (inTextOrder table) :=
  mergeSort_map PlacedTerm.term table

/-- The trees of a table of terms, as a list holds them. -/
def written (table : Entries String PlacedTerm) : List Placed :=
  (inTextOrder table).flatMap fun e => e.2.trees

theorem map_item_written (table : Entries String PlacedTerm) :
    (written table).map Placed.item =
      (inOrder (asTerms table)).flatMap fun e => e.2.items := by
  rw [inOrder_asTerms, written, asTerms, List.map_flatMap, List.flatMap_map]
  exact List.flatMap_congr fun e _ => e.2.map_item_trees

theorem map_node_written (table : Entries String PlacedTerm) :
    (written table).map Placed.node = DefinitionList.inOrder (asPairs table) := by
  rw [DefinitionList.inOrder, asPairs, mergeSort_map, written, List.map_flatMap, List.flatMap_map]
  exact List.flatMap_congr fun e _ => e.2.map_node_trees

theorem mem_inTextOrder {table : Entries String PlacedTerm} {e : String × PlacedTerm} :
    e ∈ inTextOrder table ↔ e ∈ table :=
  List.mem_mergeSort

theorem nodup_keys_inTextOrder {table : Entries String PlacedTerm}
    (hn : (Entries.keys table).Nodup) : (Entries.keys (inTextOrder table)).Nodup :=
  ((List.mergeSort_perm _ _).symm.map Prod.fst).nodup hn

theorem placesAll_written (table : Entries String PlacedTerm) :
    Placed.placesAll (written table) = (inTextOrder table).flatMap fun e => e.2.places := by
  rw [written, Placed.placesAll_eq_flatMap, List.flatMap_assoc]
  exact List.flatMap_congr fun e _ => (Placed.placesAll_eq_flatMap e.2.trees).symm

theorem mem_places_written {table : Entries String PlacedTerm} {i : Nat} :
    i ∈ Placed.placesAll (written table) ↔ ∃ t p, (t, p) ∈ table ∧ i ∈ p.places := by
  simp only [placesAll_written, List.mem_flatMap, mem_inTextOrder, Prod.exists]

theorem holdsAll_written (h : ∀ t p, (t, p) ∈ own → a.StandsTerm p) : a.HoldsAll (written own) := by
  refine holdsAll_iff.2 fun tree htree => ?_
  obtain ⟨⟨t, p⟩, hp, hmem⟩ := List.mem_flatMap.1 htree
  exact holdsAll_iff.1 (h t p (mem_inTextOrder.1 hp)).holds tree hmem

theorem nodup_written (hn : (Entries.keys own).Nodup)
    (hterms : ∀ t p, (t, p) ∈ own → p.places.Nodup)
    (hapart : ∀ t u p q, (t, p) ∈ own → (u, q) ∈ own → t ≠ u → p.places.Disjoint q.places) :
    (Placed.placesAll (written own)).Nodup := by
  rw [placesAll_written, List.nodup_flatMap]
  refine ⟨fun e he => hterms e.1 e.2 (mem_inTextOrder.1 he), ?_⟩
  have hkeys := List.pairwise_map.1 (nodup_keys_inTextOrder hn)
  refine hkeys.imp_of_mem fun {e e'} he he' hne => ?_
  exact hapart e.1 e'.1 e.2 e'.2 (mem_inTextOrder.1 he) (mem_inTextOrder.1 he') hne

theorem lending_start {cx cy : List Placed} (hx : a.HoldsAll cx) (hy : a.HoldsAll cy)
    (hnx : (Placed.placesAll cx).Nodup) (hny : (Placed.placesAll cy).Nodup)
    (hmeets : cx = cy ∨ (Placed.placesAll cx).Disjoint (Placed.placesAll cy)) :
    Lending a (Placed.placesAll cy) a (inTextOrder (placedTable cx)) (placedTable cy) := by
  have hkeys (ts : List Placed) : (Entries.keys (placedTable ts)).Nodup := Entries.nodup_ofPairs _
  have hlent {t q} (hq : (t, q) ∈ inTextOrder (placedTable cx)) :
      q ∈ Placed.terms cx ∧ q.pair.text = t :=
    mem_terms_of_get? (Entries.get?_of_mem (hkeys cx) (mem_inTextOrder.1 hq))
  refine ⟨.refl _ a, nodup_keys_inTextOrder (hkeys cx), hkeys cy, ?_, ?_, ?_, ?_, ?_⟩
  · exact fun t q hq => standsTerm_of_mem_terms hx hnx (hlent hq).1
  · exact fun t p hp => standsTerm_of_mem_terms hy hny (mem_terms_of_get? hp).1
  · exact fun t p hp i hi => .inl ((places_of_mem_terms (mem_terms_of_get? hp).1).subset hi)
  · intro t u p q hp hq hne
    obtain ⟨hmp, rfl⟩ := mem_terms_of_get? hp
    obtain ⟨hmq, rfl⟩ := mem_terms_of_get? hq
    exact disjoint_of_mem_terms hny hmp hmq fun hpq => hne (hpq ▸ rfl)
  · intro t q u p hq hp
    obtain ⟨hmq, rfl⟩ := hlent hq
    obtain ⟨hmp, rfl⟩ := mem_terms_of_get? hp
    rcases hmeets with rfl | hapart
    · by_cases hqp : q = p
      · exact .inl ⟨hqp ▸ rfl, hqp⟩
      · exact .inr (disjoint_of_mem_terms hnx hmq hmp hqp)
    · exact .inr (List.disjoint_of_subset_left (places_of_mem_terms hmq).subset
        (List.disjoint_of_subset_right (places_of_mem_terms hmp).subset hapart))

theorem node_written {cx cy : List Placed} (hn : (Entries.keys own).Nodup)
    (hget : ∀ u, (Entries.get? own u).map PlacedTerm.pair =
      met ((Entries.get? (inTextOrder (placedTable cx)) u).map PlacedTerm.pair)
        ((Entries.get? (placedTable cy) u).map PlacedTerm.pair)) :
    (written own).map Placed.node =
      DefinitionList.merge (cx.map Placed.node) (cy.map Placed.node) := by
  rw [map_node_written, DefinitionList.merge_eq_inOrder]
  refine DefinitionList.inOrder_congr ?_ (DefinitionList.wellFiled_merged _ _) fun u => ?_
  · rw [asPairs, Entries.keys_map fun _ => PlacedTerm.pair]
    exact hn
  · have hpairs (table : Entries String PlacedTerm) : Entries.get? (asPairs table) u =
        (Entries.get? table u).map PlacedTerm.pair := Entries.get?_map (fun _ => PlacedTerm.pair) _ u
    have hsorted : Entries.get? (inTextOrder (placedTable cx)) u =
        Entries.get? (placedTable cx) u :=
      Entries.get?_perm (Entries.nodup_ofPairs _) (List.mergeSort_perm _ _).symm u
    rw [hpairs, hget, DefinitionList.get?_merged, DefinitionList.mergedTerm?, hsorted, ← hpairs,
      ← hpairs, asPairs_placedTable, asPairs_placedTable, DefinitionList.get?_byTerm,
      DefinitionList.get?_byTerm]
    rfl

theorem merged_setItems {start : Arena} {x y : Placed} {j : Nat} {ny : String} {asy : Attributes}
    {cy : List Placed} (hyx : y = .element j ny asy cy) (hy : start.Stands y)
    (h : Lending start (Placed.placesAll cy) a [] own)
    (hnode : (written own).map Placed.node =
      DefinitionList.merge x.node.children (cy.map Placed.node)) :
    Merged start (a.setItems j ((written own).map Placed.item)) x y
      (.element j ny asy (written own)) := by
  subst hyx
  obtain ⟨hholds, hnodup⟩ := hy
  obtain ⟨hcell, -⟩ := hholds
  rw [Placed.places, List.nodup_cons] at hnodup
  have hj : j < start.size := lt_size_of_cell? hcell
  have hget {t p} (hp : (t, p) ∈ own) := Entries.get?_of_mem h.ownKeys hp
  have hplaces : ∀ i ∈ Placed.placesAll (written own), i ∈ Placed.placesAll cy ∨ start.size ≤ i := by
    intro i hi
    obtain ⟨t, p, hp, hmem⟩ := mem_places_written.1 hi
    exact h.within t p (hget hp) i hmem
  have hnot : j ∉ Placed.placesAll (written own) := fun hmem =>
    (hplaces j hmem).elim hnodup.1 fun hle => Nat.not_lt.2 hle hj
  have hset := changedAt_setItems a j ((written own).map Placed.item)
  refine ⟨?_, ⟨⟨?_, ?_⟩, ?_⟩, rfl, ?_, ?_⟩
  · refine (h.changed.mono (List.subset_cons_self _ _)).trans hset fun i hi => .inl ?_
    rw [List.mem_singleton.1 hi]
    exact List.mem_cons_self
  · rw [cell?_setItems, h.changed.same j hj hnodup.1, hcell, Option.map_some, if_pos rfl]
  · refine hset.holdsAll (holdsAll_written fun t p hp => h.ownStands t p (hget hp)) ?_
    exact (List.singleton_disjoint.2 hnot).symm
  · rw [Placed.places, List.nodup_cons]
    refine ⟨hnot, nodup_written h.ownKeys (fun t p hp => (h.ownStands t p (hget hp)).nodup) ?_⟩
    exact fun t u p q hp hq => h.ownApart t u p q (hget hp) (hget hq)
  · rw [Placed.node, Placed.nodes_eq_map, hnode, Placed.node, Placed.nodes_eq_map]
    rfl
  · intro i hi
    rcases List.mem_cons.1 hi with rfl | hi
    · exact .inl List.mem_cons_self
    · exact (hplaces i hi).imp_left (List.mem_cons_of_mem _)

end

/-- The merge in place leaves the merge of two lists, if they have no element in common or are one
list. -/
theorem mergeWithin_spec (depth : Nat) : MergesUpTo depth (mergeWithin depth) := by
  induction depth with
  | zero =>
    intro a x y i j _ _ hi _ _ hdepth
    cases x with
    | text s => cases hi
    | element i name as cs => simp [Placed.places] at hdepth
  | succ depth ih =>
    intro a x y i j hx hy hi hj hmeets hdepth
    cases x with
    | text s => cases hi
    | element i nx asx cx =>
    cases y with
    | text s => cases hj
    | element j ny asy cy =>
    cases hi
    cases hj
    have hnx := (List.nodup_cons.1 hx.nodup).2
    have hny := (List.nodup_cons.1 hy.nodup).2
    have hchildren : cx = cy ∨ (Placed.placesAll cx).Disjoint (Placed.placesAll cy) := by
      rcases hmeets with hsame | hapart
      · injection hsame with _ _ _ hsame
        exact .inl hsame
      · exact .inr (List.disjoint_of_subset_left (List.subset_cons_self _ _)
          (List.disjoint_of_subset_right (List.subset_cons_self _ _) hapart))
    -- a nested list has fewer elements than the list it is nested in
    have hfewer : ∀ t q, (t, q) ∈ inTextOrder (placedTable cx) → q.places.length ≤ depth := by
      intro t q hq
      have hmem := mem_terms_of_get?
        (Entries.get?_of_mem (Entries.nodup_ofPairs _) (mem_inTextOrder.1 hq))
      exact Nat.le_trans (places_of_mem_terms hmem.1).length_le (Nat.le_of_succ_le_succ hdepth)
    obtain ⟨b, own, hrun, hend, hget⟩ :=
      lend_spec ih (lending_start hx.holds.2 hy.holds.2 hnx hny hchildren) hfewer
    have hnode := node_written hend.ownKeys hget
    refine ⟨_, _, ?_, merged_setItems rfl hy hend ?_⟩
    · rw [mergeWithin, byTerm_spec hx, byTerm_spec hy, map_item_written]
      simp only [Option.bind_eq_bind, Option.bind_some, inOrder_asTerms (placedTable cx), hrun,
        Option.pure_def]
    · rw [hnode, Placed.node, Placed.nodes_eq_map]
      rfl

theorem mergeLists_spec {a : Arena} {x y : Placed} {i j : Nat} (hx : a.Stands x) (hy : a.Stands y)
    (hi : x.item = .element i) (hj : y.item = .element j)
    (h : x = y ∨ x.places.Disjoint y.places) :
    ∃ a' result, a.mergeLists i j = some a' ∧ Merged a a' x y result :=
  mergeWithin_spec a.size hx hy hi hj h hx.length_le

theorem Merged.tree?_eq {a a' : Arena} {x y result : Placed} (h : Merged a a' x y result) :
    a'.tree? y.item = some (x.node.mergeList y.node) := by
  rw [← h.item, h.stands.tree?_eq, h.node]

/-- What has nothing in common with the receiving list stands after the merge as before, and has
nothing in common with that list then. -/
theorem Merged.stands_apart {a a' : Arena} {x y z result : Placed} (h : Merged a a' x y result)
    (hz : a.Stands z) (hapart : z.places.Disjoint y.places) :
    a'.Stands z ∧ z.places.Disjoint result.places := by
  refine ⟨h.changed.stands hz hapart, fun i hi hresult => ?_⟩
  rcases h.within i hresult with hmem | hle
  · exact hapart hi hmem
  · exact Nat.not_lt.2 hle (hz.holds.lt_size i hi)

end RouteDocs.Arena
