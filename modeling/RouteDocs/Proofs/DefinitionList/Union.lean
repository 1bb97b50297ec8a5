import RouteDocs.Proofs.DefinitionList.Merge

/-!
# The union of two definition lists

What the merge of two definition lists is, said without the merge: a relation
between the two lists and a third one. `IsUnion` says what the third list looks
like as a whole, `IsUnionTerm` where each of its terms comes from. Two lists
have exactly one union, and the merge finds it.

Results:
* `FirstListAt.firstList?_eq`, `FirstListAt.mapFirstList_eq`: the first list of a definition
  by what stands around it.
* `mergedTerm?_of_isUnionTerm`, `isUnionTerm_of_mergedTerm?`: the terms of the union are
  those of the merge.
* `isUnion_iff`: the union is the merge.
-/
namespace RouteDocs.DefinitionList

/-- Nodes split at the first definition list among them. -/
structure FirstListAt (before : List Node) (list : Node) (after nodes : List Node) : Prop where
  split : nodes = before ++ list :: after
  isList : list.isA .definitionList = true
  noneBefore : ∀ n ∈ before, n.isA .definitionList = false

mutual

/-- The third list is the second with the terms of both, in the order of their texts and
each written as its marker and its definition. -/
inductive IsUnion : Node → Node → Node → Prop where
  | intro {source dest : Node} {pairs : List TermPair}
      (content : ∀ r ∈ pairs, ∀ n ∈ r.definition, isContent n = true)
      (increasing : Increasing pairs)
      (texts : ∀ t, (∃ r ∈ pairs, r.text = t) ↔
        (∃ q ∈ termPairs source.children, q.text = t) ∨
          ∃ p ∈ termPairs dest.children, p.text = t)
      (terms : ∀ r ∈ pairs, IsUnionTerm source dest r) :
      IsUnion source dest (dest.withChildren (pairs.flatMap TermPair.nodes))

/-- Where a term of the union of two lists comes from. -/
inductive IsUnionTerm : Node → Node → TermPair → Prop where
  /-- Only the first list has the term: its last one is copied. -/
  | copied {source dest : Node} {q : TermPair}
      (absent : lastTerm? dest.children q.text = none)
      (lent : lastTerm? source.children q.text = some q) :
      IsUnionTerm source dest q
  /-- The second list has the term, and on one side no list is nested in it. -/
  | kept {source dest : Node} {p : TermPair}
      (own : lastTerm? dest.children p.text = some p)
      (unmet : (∀ n ∈ p.definition, n.isA .definitionList = false) ∨
        ∀ q, lastTerm? source.children p.text = some q →
          ∀ n ∈ q.definition, n.isA .definitionList = false) :
      IsUnionTerm source dest p
  /-- Both have the term with a list nested in it: the union of the first ones stands in
  the place of the second list's own. -/
  | joined {source dest : Node} {p q : TermPair} {before after before' after' : List Node}
      {mine theirs both : Node}
      (own : lastTerm? dest.children p.text = some p)
      (lent : lastTerm? source.children p.text = some q)
      (ownList : FirstListAt before mine after p.definition)
      (lentList : FirstListAt before' theirs after' q.definition)
      (union : IsUnion theirs mine both) :
      IsUnionTerm source dest { p with definition := before ++ both :: after }

end

/-! ## The first list by what stands around it -/

theorem firstList?_eq_none_iff {ns : List Node} :
    firstList? ns = none ↔ ∀ n ∈ ns, n.isA .definitionList = false := by
  induction ns with
  | nil => simp [firstList?]
  | cons n rest ih =>
    by_cases h : n.isA .definitionList = true
    · simp [firstList?, h]
    · simp [firstList?, h, ih]

theorem FirstListAt.firstList?_eq {before after ns : List Node} {list : Node}
    (h : FirstListAt before list after ns) : firstList? ns = some list.children := by
  obtain ⟨rfl, hlist, hbefore⟩ := h
  induction before with
  | nil => simp [firstList?, hlist]
  | cons n rest ih =>
    have hn := hbefore n List.mem_cons_self
    simpa [firstList?, hn] using ih fun m hm => hbefore m (List.mem_cons_of_mem _ hm)

theorem FirstListAt.mapFirstList_eq {before after ns : List Node} {list : Node}
    (h : FirstListAt before list after ns) (f : List Node → List Node) :
    mapFirstList f ns = before ++ list.withChildren (f list.children) :: after := by
  obtain ⟨rfl, hlist, hbefore⟩ := h
  induction before with
  | nil => simp [mapFirstList, hlist]
  | cons n rest ih =>
    have hn := hbefore n List.mem_cons_self
    simpa [mapFirstList, hn] using ih fun m hm => hbefore m (List.mem_cons_of_mem _ hm)

theorem exists_firstListAt {ns cs : List Node} (h : firstList? ns = some cs) :
    ∃ before list after, FirstListAt before list after ns ∧ list.children = cs := by
  induction ns with
  | nil => simp [firstList?] at h
  | cons n rest ih =>
    by_cases hn : n.isA .definitionList = true
    · simp only [firstList?, hn, if_pos, Option.some.injEq] at h
      exact ⟨[], n, rest, ⟨rfl, hn, by simp⟩, h⟩
    · simp only [firstList?, hn, Bool.false_eq_true, if_false] at h
      obtain ⟨before, list, after, ⟨rfl, hlist, hbefore⟩, hcs⟩ := ih h
      refine ⟨n :: before, list, after, ⟨rfl, hlist, fun m hm => ?_⟩, hcs⟩
      rcases List.mem_cons.1 hm with rfl | hm
      · simpa using hn
      · exact hbefore m hm

/-! ## The union is the merge -/

section
variable {source : Node}
  (ih : ∀ t q inner, lastTerm? source.children t = some q → firstList? q.definition = some inner →
    ∀ theirs : Node, theirs.children = inner → ∀ mine both,
      IsUnion theirs mine both ↔ both = theirs.mergeList mine)

include ih in
theorem mergedTerm?_of_isUnionTerm {dest : Node} {r : TermPair} (h : IsUnionTerm source dest r) :
    mergedTerm? source.children dest.children r.text = some r := by
  cases h with
  | copied absent lent => simp [mergedTerm?, absent, lent]
  | kept own unmet =>
    have habs : absorb (lastTerm? source.children r.text) r = r := by
      cases hq : lastTerm? source.children r.text with
      | none => rfl
      | some q =>
        rw [absorb_eq_self_iff]
        intro inner mine hi hm
        rcases unmet with hnone | hnone
        · rw [firstList?_eq_none_iff.2 hnone] at hm
          cases hm
        · rw [firstList?_eq_none_iff.2 (hnone q hq)] at hi
          cases hi
    simp [mergedTerm?, own, habs]
  | @joined _ _ p q before after before' after' mine theirs both own lent ownList lentList union =>
    have hboth := (ih _ q _ lent lentList.firstList?_eq theirs rfl mine both).1 union
    have htext : ({ p with definition := before ++ both :: after } : TermPair).text = p.text := rfl
    rw [htext, mergedTerm?, own, lent, Option.map_some, Option.some_or,
      definition_absorb lentList.firstList?_eq, ownList.mapFirstList_eq, hboth, Node.mergeList]

include ih in
theorem isUnionTerm_of_mergedTerm? {dest : Node} {t : String} {r : TermPair}
    (h : mergedTerm? source.children dest.children t = some r) : IsUnionTerm source dest r := by
  rw [mergedTerm?] at h
  cases hp : lastTerm? dest.children t with
  | none =>
    have hq : lastTerm? source.children t = some r := by simpa [hp] using h
    obtain rfl : r.text = t := (mem_of_lastTerm? hq).2
    exact .copied hp hq
  | some p =>
    obtain rfl : p.text = t := (mem_of_lastTerm? hp).2
    obtain rfl : absorb (lastTerm? source.children p.text) p = r := by simpa [hp] using h
    cases hq : lastTerm? source.children p.text with
    | none =>
      rw [absorb_none]
      refine .kept hp (.inr fun q h => ?_)
      rw [hq] at h
      cases h
    | some q =>
      cases hi : firstList? q.definition with
      | none =>
        rw [absorb_some, hi]
        refine .kept hp (.inr fun q' h => ?_)
        rw [hq] at h
        cases h
        exact firstList?_eq_none_iff.1 hi
      | some inner =>
        cases hm : firstList? p.definition with
        | none =>
          have habs : absorb (some q) p = p :=
            (absorb_eq_self_iff q p).2 fun _ own _ ho => by rw [hm] at ho; cases ho
          rw [habs]
          exact .kept hp (.inl (firstList?_eq_none_iff.1 hm))
        | some own =>
          obtain ⟨before, mine, after, hown, -⟩ := exists_firstListAt hm
          obtain ⟨before', theirs, after', hlent, hchildren⟩ := exists_firstListAt hi
          rw [definition_absorb hi, hown.mapFirstList_eq, ← hchildren]
          exact .joined hp hq hown hlent ((ih _ q _ hq hi theirs hchildren mine _).2 rfl)

end

theorem exists_text_merge_iff (source dest : List Node) (t : String) :
    (∃ r ∈ termPairs (merge source dest), r.text = t) ↔
      (∃ q ∈ termPairs source, q.text = t) ∨ ∃ p ∈ termPairs dest, p.text = t := by
  rw [exists_text_iff, exists_text_iff, exists_text_iff, lastTerm?_merge, mergedTerm?]
  cases lastTerm? dest t <;> simp

/-- Two definition lists have exactly one union, and it is their merge. -/
theorem isUnion_iff {source dest result : Node} :
    IsUnion source dest result ↔ result = source.mergeList dest := by
  generalize hcs : source.children = cs
  induction cs using nested_induction generalizing source dest result with
  | step cs ih =>
    subst hcs
    have hterms : ∀ t q inner, lastTerm? source.children t = some q →
        firstList? q.definition = some inner → ∀ theirs : Node, theirs.children = inner →
        ∀ mine both, IsUnion theirs mine both ↔ both = theirs.mergeList mine :=
      fun t q inner hq hi theirs ht mine both => ih t q inner hq hi ht
    constructor
    · rintro ⟨hcontent, hinc, htexts, hunion⟩
      rename_i pairs
      have hpairs : termPairs (pairs.flatMap TermPair.nodes) = pairs := termPairs_flatMap hcontent
      have hmerged : ∀ r ∈ pairs, mergedTerm? source.children dest.children r.text = some r :=
        fun r hr => mergedTerm?_of_isUnionTerm hterms (hunion r hr)
      have hmerge : pairs.flatMap TermPair.nodes = merge source.children dest.children := by
        rw [eq_merge_iff, hpairs]
        refine ⟨preamble_flatMap pairs, hinc, fun t => ?_⟩
        ext r
        rw [lastTerm?_eq_some_iff (hpairs.symm ▸ hinc), hpairs]
        constructor
        · rintro ⟨hr, rfl⟩
          exact hmerged r hr
        · intro hr
          have hex : ∃ r ∈ termPairs (merge source.children dest.children), r.text = t :=
            exists_text_iff.2 ⟨r, (lastTerm?_merge _ _ t).trans hr⟩
          obtain ⟨r', hr', rfl⟩ := (htexts t).2 ((exists_text_merge_iff _ _ t).1 hex)
          rw [hmerged r' hr'] at hr
          cases hr
          exact ⟨hr', rfl⟩
      rw [Node.mergeList, hmerge]
    · rintro rfl
      have hwritten : merge source.children dest.children =
          (termPairs (merge source.children dest.children)).flatMap TermPair.nodes := by
        have := termPairs_decompose (merge source.children dest.children)
        rwa [preamble_merge, List.nil_append] at this
      rw [Node.mergeList, hwritten]
      refine .intro (fun r hr => isContent_of_mem_definition hr) (increasing_merge _ _)
        (exists_text_merge_iff _ _) fun r hr => ?_
      have hlast := (lastTerm?_eq_some_iff (increasing_merge _ _)).2 ⟨hr, rfl⟩
      rw [lastTerm?_merge] at hlast
      exact isUnionTerm_of_mergedTerm? hterms hlast

end RouteDocs.DefinitionList
