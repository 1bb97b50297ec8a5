import RouteDocs.Proofs.DefinitionList.Merge

/-!
# Merging the same list again

A term that only the source has is copied as it stands, while a term that both
lists have is merged. So a second merge of the same source rewrites the lists
nested in what the first one copied, and changes something exactly if one of
them is not tidy. A third merge never changes anything.

Results:
* `merge_self_eq_iff`: a list merged into itself stays as it is exactly if it is tidy.
* `merge_merge_eq_iff`: the second merge changes nothing exactly if the source lends
  nothing but tidy lists.
* `lendsTidy_of_tidy`: so it does for every destination if the source is tidy.
* `merge_merge_merge`: the third merge changes nothing.
* `mergeList_repeat`: both, for definition lists as elements.
-/
namespace RouteDocs.DefinitionList

/-- A list in order, and so are the lists nested in it: nothing stands before its first
marker, its terms increase, and the first list in each of its definitions is tidy. -/
inductive Tidy : List Node → Prop where
  | intro {children : List Node}
      (nothingBefore : preamble children = [])
      (increasing : Increasing (termPairs children))
      (nested : ∀ p ∈ termPairs children, ∀ inner, firstList? p.definition = some inner →
        Tidy inner) :
      Tidy children

/-- What one list lends to another holds nothing but tidy lists: those nested in the terms
that are copied, and what is lent where lists of both sides meet. -/
inductive LendsTidy : List Node → List Node → Prop where
  | intro {source dest : List Node}
      (copied : ∀ t q inner, lastTerm? source t = some q → firstList? q.definition = some inner →
        lastTerm? dest t = none → Tidy inner)
      (met : ∀ t q inner p own, lastTerm? source t = some q →
        firstList? q.definition = some inner → lastTerm? dest t = some p →
        firstList? p.definition = some own → LendsTidy inner own) :
      LendsTidy source dest

/-! ## A list merged into itself -/

theorem merge_self_eq_iff (children : List Node) :
    merge children children = children ↔ Tidy children := by
  induction children using nested_induction with
  | step children ih =>
    rw [eq_comm, eq_merge_iff]
    constructor
    · rintro ⟨hpre, hinc, hget⟩
      refine .intro hpre hinc fun p hp inner hi => ?_
      have hlast := (lastTerm?_eq_some_iff hinc).2 ⟨hp, rfl⟩
      have habs : absorb (some p) p = p := by
        have := hget p.text
        rw [mergedTerm?, hlast] at this
        simpa using this.symm
      rw [← ih _ _ _ hlast hi]
      exact (absorb_eq_self_iff p p).1 habs inner inner hi hi
    · rintro ⟨hpre, hinc, hnested⟩
      refine ⟨hpre, hinc, fun t => ?_⟩
      rw [mergedTerm?]
      cases hlast : lastTerm? children t with
      | none => rfl
      | some p =>
        have habs : absorb (some p) p = p := by
          rw [absorb_eq_self_iff]
          intro inner own hi ho
          obtain rfl : inner = own := by simpa [hi] using ho
          rw [ih _ _ _ hlast hi]
          exact hnested p (mem_of_lastTerm? hlast).1 inner hi
        simp [habs]

/-! ## A list merged twice into another -/

/-- The second merge changes nothing exactly if no term that the source lends changes in
the first one's result. -/
theorem merge_merge_eq_iff_absorb (source dest : List Node) :
    merge source (merge source dest) = merge source dest ↔
      ∀ t q, lastTerm? source t = some q →
        ∀ r, lastTerm? (merge source dest) t = some r → absorb (some q) r = r := by
  rw [eq_comm, eq_merge_iff]
  constructor
  · rintro ⟨-, -, hget⟩ t q hq r hr
    have := hget t
    rw [mergedTerm?, hr, hq] at this
    simpa using this.symm
  · intro h
    refine ⟨preamble_merge _ _, increasing_merge _ _, fun t => ?_⟩
    rw [mergedTerm?]
    cases hq : lastTerm? source t with
    | none => cases lastTerm? (merge source dest) t <;> simp [absorb_none]
    | some q =>
      cases hr : lastTerm? (merge source dest) t with
      | none => simp [lastTerm?_merge, mergedTerm?, hq] at hr
      | some r => simp [h t q hq r hr]

/-- A list nested in a lent term, after the merge: the source's own, where the term was copied, or
that merged into the list which the receiving list had. -/
theorem nested_of_merge {source dest inner own : List Node} {t : String} {q r : TermPair}
    (hq : lastTerm? source t = some q) (hi : firstList? q.definition = some inner)
    (hr : lastTerm? (merge source dest) t = some r) (ho : firstList? r.definition = some own) :
    (lastTerm? dest t = none ∧ own = inner) ∨
      ∃ p met, lastTerm? dest t = some p ∧ firstList? p.definition = some met ∧
        own = merge inner met := by
  rw [lastTerm?_merge, mergedTerm?, hq] at hr
  cases hd : lastTerm? dest t with
  | none =>
    obtain rfl : q = r := by simpa [hd] using hr
    rw [hi] at ho
    exact .inl ⟨rfl, (Option.some.inj ho).symm⟩
  | some p =>
    obtain rfl : absorb (some q) p = r := by simpa [hd] using hr
    rw [firstList?_absorb hi] at ho
    obtain ⟨met, hmet, rfl⟩ := Option.map_eq_some_iff.1 ho
    exact .inr ⟨p, met, rfl, hmet, rfl⟩

theorem merge_merge_eq_iff (source dest : List Node) :
    merge source (merge source dest) = merge source dest ↔ LendsTidy source dest := by
  induction source using nested_induction generalizing dest with
  | step source ih =>
    rw [merge_merge_eq_iff_absorb]
    constructor
    · intro h
      constructor
      · intro t q inner hq hi hd
        have habs := h t q hq q (by simp [lastTerm?_merge, mergedTerm?, hd, hq])
        rw [← merge_self_eq_iff]
        exact (absorb_eq_self_iff q q).1 habs inner inner hi hi
      · intro t q inner p own hq hi hd ho
        have habs := h t q hq (absorb (some q) p) (by simp [lastTerm?_merge, mergedTerm?, hd, hq])
        rw [← ih _ _ _ hq hi own]
        refine (absorb_eq_self_iff q _).1 habs inner (merge inner own) hi ?_
        rw [firstList?_absorb hi, ho, Option.map_some]
    · rintro ⟨hcopied, hmet⟩ t q hq r hr
      rw [absorb_eq_self_iff]
      intro inner own hi ho
      rcases nested_of_merge hq hi hr ho with ⟨hd, rfl⟩ | ⟨p, met, hd, hp, rfl⟩
      · exact (merge_self_eq_iff own).2 (hcopied t q own hq hi hd)
      · exact (ih _ _ _ hq hi met).2 (hmet t q inner p met hq hi hd hp)

/-- A tidy list lends nothing but tidy lists. -/
theorem lendsTidy_of_tidy {source : List Node} (h : Tidy source) (dest : List Node) :
    LendsTidy source dest := by
  induction h generalizing dest with
  | intro hpre hinc hnested ih =>
    constructor
    · intro t q inner hq hi _
      exact hnested q (mem_of_lastTerm? hq).1 inner hi
    · intro t q inner p own hq hi _ _
      exact ih q (mem_of_lastTerm? hq).1 inner hi own

/-! ## A list merged three times into another -/

theorem lendsTidy_self (children : List Node) : LendsTidy children children := by
  induction children using nested_induction with
  | step children ih =>
    constructor
    · intro t q inner hq _ hn
      rw [hq] at hn
      cases hn
    · intro t q inner p own hq hi hp ho
      obtain rfl : q = p := by simpa [hq] using hp
      obtain rfl : inner = own := by simpa [hi] using ho
      exact ih _ _ _ hq hi

theorem lendsTidy_merge (source dest : List Node) : LendsTidy source (merge source dest) := by
  induction source using nested_induction generalizing dest with
  | step source ih =>
    constructor
    · intro t q inner hq _ hn
      simp [lastTerm?_merge, mergedTerm?, hq] at hn
    · intro t q inner r own hq hi hr ho
      rcases nested_of_merge hq hi hr ho with ⟨-, rfl⟩ | ⟨p, met, -, -, rfl⟩
      · exact lendsTidy_self own
      · exact ih _ _ _ hq hi met

theorem merge_merge_merge (source dest : List Node) :
    merge source (merge source (merge source dest)) = merge source (merge source dest) :=
  (merge_merge_eq_iff source (merge source dest)).2 (lendsTidy_merge source dest)

/-! ## Definition lists as elements -/

/-- Merging a list once more changes nothing exactly if it lends nothing but tidy lists, and
merging it a third time never does. -/
theorem mergeList_repeat (source : Node) (name : String) (as : Attributes) (cs : List Node) :
    let dest := Node.element name as cs
    (source.mergeList (source.mergeList dest) = source.mergeList dest ↔
      LendsTidy source.children cs) ∧
    source.mergeList (source.mergeList (source.mergeList dest)) =
      source.mergeList (source.mergeList dest) := by
  simp only [Node.mergeList, Node.withChildren, Node.children, Node.element.injEq, true_and]
  exact ⟨merge_merge_eq_iff source.children cs, merge_merge_merge source.children cs⟩

/-- A copied term keeps the order of the list nested in it until the second merge. -/
theorem mergeList_repeat_changes :
    let source := Node.element "over-text" []
      [.element "item-text" [] [.text "filter"],
        .element "over-text" []
          [.element "item-text" [] [.text "size"], .element "item-text" [] [.text "colour"]]]
    let dest := Node.element "over-text" [] []
    source.mergeList (source.mergeList dest) ≠ source.mergeList dest := by
  intro source dest h
  simp only [source, dest, Node.mergeList, Node.withChildren, Node.children, Node.element.injEq,
    true_and] at h
  obtain ⟨hcopied, -⟩ := (merge_merge_eq_iff _ _).1 h
  obtain ⟨-, hinc, -⟩ := hcopied "filter" _ _ rfl rfl rfl
  have hlt : (⟨[], [.text "size"], []⟩ : TermPair).text <
      (⟨[], [.text "colour"], []⟩ : TermPair).text :=
    List.rel_of_pairwise_cons hinc List.mem_cons_self
  exact absurd hlt (by decide)

end RouteDocs.DefinitionList
