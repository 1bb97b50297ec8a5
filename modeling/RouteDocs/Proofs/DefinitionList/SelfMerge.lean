import RouteDocs.Proofs.DefinitionList.InPlace
import RouteDocs.Proofs.DefinitionList.Repeat

/-!
# A list merged into itself

The lists that are merged are one list, and so are the lists nested in each of
its terms: what is read has been rewritten already. The outcome is that of a
merge with a copy. It is tidy all the way down, and a tidy list that is merged
into itself is written as it stands.

Results:
* `tidy_merge_self`: the merge of a list with itself is tidy.
* `mergeLists_tidy`: in place, a tidy list merged into itself leaves every element as it is.
* `mergeLists_self`: a list merged into itself is as it were merged with a copy, and a second
  merge leaves every element as it is.
-/
namespace RouteDocs

namespace DefinitionList

theorem tidy_merge_self (children : List Node) : Tidy (merge children children) := by
  induction children using nested_induction with
  | step children ih =>
    refine .intro (preamble_merge _ _) (increasing_merge _ _) fun p hp inner hi => ?_
    have hlast := (lastTerm?_eq_some_iff (increasing_merge _ _)).2 ⟨hp, rfl⟩
    rw [lastTerm?_merge, mergedTerm?] at hlast
    cases hq : lastTerm? children p.text with
    | none => simp [hq] at hlast
    | some q =>
      obtain rfl : absorb (some q) q = p := by simpa [hq] using hlast
      cases hinner : firstList? q.definition with
      | none => simp [absorb_some, hinner] at hi
      | some own =>
        rw [firstList?_absorb hinner, hinner, Option.map_some, Option.some.injEq] at hi
        exact hi ▸ ih _ q own hq hinner

end DefinitionList

namespace Arena

open DefinitionList (Tidy)

/-- Where the terms to be lent are the receiving list's own, and every list nested in them is
merged into itself without a change, nothing is changed. -/
theorem lend_same {mergeLists : Arena → Nat → Nat → Option Arena} {a : Arena}
    {rest own : Entries String Term} (hn : (Entries.keys own).Nodup)
    (hrest : ∀ e ∈ rest, e ∈ own)
    (hnested : ∀ t q j, (t, q) ∈ own → a.firstList? q.definition = some j →
      mergeLists a j j = some a) :
    lend mergeLists a rest own = some (a, own) := by
  induction rest with
  | nil => rfl
  | cons e rest ih =>
    obtain ⟨t, q⟩ := e
    rw [List.forall_mem_cons] at hrest
    have hown := Entries.get?_of_mem hn hrest.1
    cases hfirst : a.firstList? q.definition with
    | none => exact (lend_kept hown (.inl hfirst)).trans (ih hrest.2)
    | some j =>
      have hmerge := hnested t q j hrest.1 hfirst
      exact (lend_merged hown hfirst hfirst hmerge).trans (ih hrest.2)

theorem written_placedTable {ts : List Placed}
    (hpre : DefinitionList.preamble (ts.map Placed.node) = [])
    (hinc : DefinitionList.Increasing (DefinitionList.termPairs (ts.map Placed.node))) :
    written (placedTable ts) = ts := by
  rw [termPairs_map_node, DefinitionList.Increasing, List.pairwise_map] at hinc
  have hkeys : (Entries.keys ((Placed.terms ts).map fun p => (p.pair.text, p))).Nodup := by
    rw [Entries.keys, List.map_map, List.Nodup, List.pairwise_map]
    exact hinc.imp fun hlt => String.ne_of_lt hlt
  have hsorted : inTextOrder ((Placed.terms ts).map fun p => (p.pair.text, p)) =
      (Placed.terms ts).map fun p => (p.pair.text, p) := by
    refine List.mergeSort_of_pairwise (List.pairwise_map.2 (hinc.imp fun hlt => ?_))
    exact decide_eq_true (Std.le_of_lt hlt)
  have hnone : (ts.takeWhile fun t => !t.isA .term) = [] := by
    rw [DefinitionList.preamble, List.takeWhile_map, List.map_eq_nil_iff] at hpre
    simpa only [Function.comp_def, isContent_node] using hpre
  have hterms := terms_decompose ts
  rw [hnone, List.nil_append] at hterms
  rw [placedTable, Entries.ofPairs_eq_self hkeys, written, hsorted, List.flatMap_map]
  exact hterms.symm

theorem mergeWithin_tidy {a : Arena} (depth : Nat) {x : Placed} {i : Nat} (hx : a.Stands x)
    (hi : x.item = .element i) (htidy : Tidy x.node.children) (hdepth : x.places.length ≤ depth) :
    mergeWithin depth a i i = some a := by
  induction depth generalizing x i with
  | zero =>
    cases x with
    | text s => cases hi
    | element i name as cs => simp [Placed.places] at hdepth
  | succ depth ih =>
    cases x with
    | text s => cases hi
    | element i name as cs =>
    cases hi
    have hnx := (List.nodup_cons.1 hx.nodup).2
    rw [Placed.node, Node.children, Placed.nodes_eq_map] at htidy
    obtain ⟨hpre, hinc, hnested⟩ := htidy
    have hkeys : (Entries.keys (asTerms (placedTable cs))).Nodup := by
      rw [asTerms, Entries.keys_map fun _ => PlacedTerm.term]
      exact Entries.nodup_ofPairs _
    have hlend : lend (mergeWithin depth) a (inOrder (asTerms (placedTable cs)))
        (asTerms (placedTable cs)) = some (a, asTerms (placedTable cs)) := by
      refine lend_same hkeys (fun e he => List.mem_mergeSort.1 he) fun t term j hterm hfirst => ?_
      obtain ⟨⟨t, q⟩, hq, he⟩ := List.mem_map.1 hterm
      cases he
      obtain ⟨hmem, -⟩ := mem_terms_of_get? (Entries.get?_of_mem (Entries.nodup_ofPairs _) hq)
      have hstands := standsTerm_of_mem_terms hx.holds.2 hnx hmem
      rcases placedList_cases hstands.holds.2 with ⟨hitems, -⟩ | ⟨before, y, k, after, hy⟩
      · cases hitems.symm.trans hfirst
      · obtain rfl : k = j := Option.some.inj (hy.first.symm.trans hfirst)
        have hsub := (Placed.places_sublist hy.mem_trees).trans (places_of_mem_terms hmem)
        refine ih (hstands.stands y hy.mem_trees) hy.item ?_
          (Nat.le_trans hsub.length_le (Nat.le_of_succ_le_succ hdepth))
        refine hnested q.pair ?_ _ hy.value.firstList?_eq
        rw [termPairs_map_node]
        exact List.mem_map_of_mem hmem
    rw [mergeWithin, byTerm_spec hx]
    simp only [Option.bind_eq_bind, Option.bind_some, hlend, Option.pure_def, ← map_item_written,
      written_placedTable hpre hinc]
    exact congrArg some (setItems_self hx.holds.1)

theorem mergeLists_tidy {a : Arena} {x : Placed} {i : Nat} (hx : a.Stands x)
    (hi : x.item = .element i) (htidy : Tidy x.node.children) : a.mergeLists i i = some a :=
  mergeWithin_tidy a.size hx hi htidy hx.length_le

theorem children_mergeList {x y : Placed} {i : Nat} (hi : y.item = .element i) :
    (x.node.mergeList y.node).children =
      DefinitionList.merge x.node.children y.node.children := by
  cases y with
  | text s => cases hi
  | element i name as cs => rfl

/-- A list merged into itself, where at each level the list that is read is the one that is
rewritten: it is left as a merge with a copy, made of other elements, leaves it. A second merge
into itself leaves every element as it is. -/
theorem mergeLists_self {a : Arena} {x : Placed} {i : Nat} (hx : a.Stands x)
    (hi : x.item = .element i) :
    ∃ merged copied j mergedCopy,
      a.mergeLists i i = some merged ∧
      a.copy x.item = some (.element j, copied) ∧ copied.tree? (.element j) = some x.node ∧
      copied.mergeLists j i = some mergedCopy ∧
      merged.tree? x.item = some (x.node.mergeList x.node) ∧
      mergedCopy.tree? x.item = merged.tree? x.item ∧
      merged.mergeLists i i = some merged := by
  obtain ⟨merged, result, hmerge, hmerged⟩ := mergeLists_spec hx hx hi hi (.inl rfl)
  obtain ⟨y, copied, hcopy, hnode, hnew⟩ := copy_spec hx
  have hy : copied.Stands y := hnew.stands y List.mem_cons_self
  have hx' : copied.Stands x := hnew.changed.stands hx (List.disjoint_nil_right _)
  have hapart : y.places.Disjoint x.places := by
    intro k hk hkx
    refine Nat.not_lt.2 (hnew.fresh k ?_) (hx.holds.lt_size k hkx)
    simpa [Placed.placesAll] using hk
  obtain ⟨j, hj⟩ : ∃ j, y.item = .element j := by
    cases x with
    | text s => cases hi
    | element i name as cs =>
      cases y with
      | text s => cases hnode
      | element j name' as' cs' => exact ⟨j, rfl⟩
  obtain ⟨mergedCopy, result', hmerge', hmerged'⟩ := mergeLists_spec hy hx' hj hi (.inr hapart)
  refine ⟨merged, copied, j, mergedCopy, hmerge, hj ▸ hcopy, ?_, hmerge', hmerged.tree?_eq, ?_, ?_⟩
  · rw [← hj, hy.tree?_eq, hnode]
  · rw [hmerged.tree?_eq, hmerged'.tree?_eq, hnode]
  · refine mergeLists_tidy hmerged.stands (hmerged.item.trans hi) ?_
    rw [hmerged.node, children_mergeList hi]
    exact DefinitionList.tidy_merge_self _

/-- A list with a text before its first term, a term that comes twice and a nested list out of
order. -/
theorem mergeLists_self_tangled :
    let inner : Placed := .element 4 "over-text" []
      [.element 2 "item-text" [] [.text "size"], .element 3 "item-text" [] [.text "colour"]]
    let x : Placed := .element 5 "over-text" []
      [.text "stray", .element 0 "item-text" [] [.text "filter"], .text "first",
        .element 1 "item-text" [] [.text "filter"], inner]
    let a : Arena := ⟨[⟨"item-text", [], [.text "filter"]⟩, ⟨"item-text", [], [.text "filter"]⟩,
      ⟨"item-text", [], [.text "size"]⟩, ⟨"item-text", [], [.text "colour"]⟩,
      ⟨"over-text", [], [.element 2, .element 3]⟩,
      ⟨"over-text", [], [.text "stray", .element 0, .text "first", .element 1, .element 4]⟩]⟩
    ∃ merged copied j mergedCopy,
      a.mergeLists 5 5 = some merged ∧
      a.copy x.item = some (.element j, copied) ∧ copied.tree? (.element j) = some x.node ∧
      copied.mergeLists j 5 = some mergedCopy ∧
      merged.tree? x.item = some (x.node.mergeList x.node) ∧
      mergedCopy.tree? x.item = merged.tree? x.item ∧
      merged.mergeLists 5 5 = some merged := by
  intro inner x a
  have hholds : a.Holds x :=
    ⟨rfl, trivial, ⟨rfl, trivial, trivial⟩, trivial, ⟨rfl, trivial, trivial⟩,
      ⟨rfl, ⟨rfl, trivial, trivial⟩, ⟨rfl, trivial, trivial⟩, trivial⟩, trivial⟩
  exact mergeLists_self ⟨hholds, by decide⟩ rfl

end Arena
end RouteDocs
