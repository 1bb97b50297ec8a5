import Mathlib.Data.List.Permutation
import RouteDocs.Proofs.DefinitionList.InPlace

/-!
# Two lists merged into a third

A merge changes what the receiving list holds under the texts of the lending
list, and nothing else but its order. Two lending lists that have no text in
common therefore change different terms, and the order is that of the texts
after either merge.

Results:
* `mergedTerm?_of_none`: under a text that is not lent the receiving list keeps what it has.
* `merge_comm`: lists that have no text in common may be merged in either order.
* `mergeLists_comm`: so they may in place, if they share no element with the third.
* `mergeLists_not_comm_of_nested`: otherwise they may not.
-/
namespace RouteDocs

namespace DefinitionList

theorem mergedTerm?_of_none {source : List Node} {t : String} (h : lastTerm? source t = none)
    (dest : List Node) : mergedTerm? source dest t = lastTerm? dest t := by
  rw [mergedTerm?, h]
  cases lastTerm? dest t <;> rfl

/-- Lists that have no text in common may be merged into a third one in either order. -/
theorem merge_comm {first second : List Node}
    (h : ∀ p ∈ termPairs first, ∀ q ∈ termPairs second, p.text ≠ q.text) (dest : List Node) :
    merge second (merge first dest) = merge first (merge second dest) := by
  rw [eq_merge_iff]
  refine ⟨preamble_merge _ _, increasing_merge _ _, fun t => ?_⟩
  -- under each text at most one of the two lists lends a term
  have hone : lastTerm? first t = none ∨ lastTerm? second t = none := by
    rw [lastTerm?_eq_none_iff, lastTerm?_eq_none_iff]
    by_cases hfirst : ∃ p ∈ termPairs first, p.text = t
    · obtain ⟨p, hp, rfl⟩ := hfirst
      exact .inr fun q hq => (h p hp q hq).symm
    · exact .inl fun p hp ht => hfirst ⟨p, hp, ht⟩
  rw [lastTerm?_merge]
  rcases hone with hnone | hnone
  · rw [mergedTerm?_of_none hnone, lastTerm?_merge, mergedTerm?, mergedTerm?, lastTerm?_merge,
      mergedTerm?_of_none hnone]
  · rw [mergedTerm?_of_none hnone, lastTerm?_merge, mergedTerm?, mergedTerm?, lastTerm?_merge,
      mergedTerm?_of_none hnone]

end DefinitionList

namespace Arena

/-- Two lists that have no text in common, and share no element with a third list, may be merged
into that one in either order. -/
theorem mergeLists_comm {a : Arena} {x y z : Placed} {i j k : Nat}
    (hx : a.Stands x) (hy : a.Stands y) (hz : a.Stands z)
    (hi : x.item = .element i) (hj : y.item = .element j) (hk : z.item = .element k)
    (hxz : x.places.Disjoint z.places) (hyz : y.places.Disjoint z.places)
    (htexts : ∀ p ∈ DefinitionList.termPairs x.node.children,
      ∀ q ∈ DefinitionList.termPairs y.node.children, p.text ≠ q.text) :
    ∃ afterX afterXY afterY afterYX,
      a.mergeLists i k = some afterX ∧ afterX.mergeLists j k = some afterXY ∧
      a.mergeLists j k = some afterY ∧ afterY.mergeLists i k = some afterYX ∧
      afterXY.tree? z.item = some (y.node.mergeList (x.node.mergeList z.node)) ∧
      afterXY.tree? z.item = afterYX.tree? z.item := by
  obtain ⟨b, zx, hb, hmergedX⟩ := mergeLists_spec hx hz hi hk (.inr hxz)
  obtain ⟨c, zy, hc, hmergedY⟩ := mergeLists_spec hy hz hj hk (.inr hyz)
  obtain ⟨hyb, hapartY⟩ := hmergedX.stands_apart hy hyz
  obtain ⟨hxc, hapartX⟩ := hmergedY.stands_apart hx hxz
  obtain ⟨b', zxy, hb', hmergedXY⟩ :=
    mergeLists_spec hyb hmergedX.stands hj (hmergedX.item.trans hk) (.inr hapartY)
  obtain ⟨c', zyx, hc', hmergedYX⟩ :=
    mergeLists_spec hxc hmergedY.stands hi (hmergedY.item.trans hk) (.inr hapartX)
  have htreeXY := hmergedXY.tree?_eq
  have htreeYX := hmergedYX.tree?_eq
  rw [hmergedX.item, hmergedX.node] at htreeXY
  rw [hmergedY.item, hmergedY.node] at htreeYX
  refine ⟨b, b', c, c', hb, hb', hc, hc', htreeXY, ?_⟩
  rw [htreeXY, htreeYX]
  cases z with
  | text s => cases hk
  | element k name as cs =>
    have hcomm := DefinitionList.merge_comm htexts (Placed.nodes cs)
    exact congrArg (fun children => some (Node.element name as children)) hcomm

/-- The third list has a text before its first term, a term of the second list twice, and a term of
the first list, with lists nested in both. -/
theorem mergeLists_comm_shared :
    let x : Placed := .element 3 "over-text" []
      [.element 0 "item-text" [] [.text "filter"],
        .element 2 "over-text" [] [.element 1 "item-text" [] [.text "size"]]]
    let y : Placed := .element 6 "over-text" []
      [.element 4 "item-text" [] [.text "page"], .text "lent",
        .element 5 "item-text" [] [.text "limit"]]
    let z : Placed := .element 11 "over-text" []
      [.text "stray", .element 7 "item-text" [] [.text "page"], .text "first",
        .element 8 "item-text" [] [.text "page"], .element 9 "item-text" [] [.text "filter"],
        .element 10 "over-text" [] []]
    let a : Arena := ⟨[⟨"item-text", [], [.text "filter"]⟩, ⟨"item-text", [], [.text "size"]⟩,
      ⟨"over-text", [], [.element 1]⟩, ⟨"over-text", [], [.element 0, .element 2]⟩,
      ⟨"item-text", [], [.text "page"]⟩, ⟨"item-text", [], [.text "limit"]⟩,
      ⟨"over-text", [], [.element 4, .text "lent", .element 5]⟩,
      ⟨"item-text", [], [.text "page"]⟩, ⟨"item-text", [], [.text "page"]⟩,
      ⟨"item-text", [], [.text "filter"]⟩, ⟨"over-text", [], []⟩,
      ⟨"over-text", [], [.text "stray", .element 7, .text "first", .element 8, .element 9,
        .element 10]⟩]⟩
    ∃ afterX afterXY afterY afterYX,
      a.mergeLists 3 11 = some afterX ∧ afterX.mergeLists 6 11 = some afterXY ∧
      a.mergeLists 6 11 = some afterY ∧ afterY.mergeLists 3 11 = some afterYX ∧
      afterXY.tree? z.item = some (y.node.mergeList (x.node.mergeList z.node)) ∧
      afterXY.tree? z.item = afterYX.tree? z.item := by
  intro x y z a
  have hx : a.Holds x :=
    ⟨rfl, ⟨rfl, trivial, trivial⟩, ⟨rfl, ⟨rfl, trivial, trivial⟩, trivial⟩, trivial⟩
  have hy : a.Holds y :=
    ⟨rfl, ⟨rfl, trivial, trivial⟩, trivial, ⟨rfl, trivial, trivial⟩, trivial⟩
  have hz : a.Holds z :=
    ⟨rfl, trivial, ⟨rfl, trivial, trivial⟩, trivial, ⟨rfl, trivial, trivial⟩,
      ⟨rfl, trivial, trivial⟩, ⟨rfl, trivial⟩, trivial⟩
  have hxz : ∀ i ∈ x.places, i ∉ z.places := by decide
  have hyz : ∀ i ∈ y.places, i ∉ z.places := by decide
  refine mergeLists_comm (x := x) (y := y) (z := z) ⟨hx, by decide⟩ ⟨hy, by decide⟩
    ⟨hz, by decide⟩ rfl rfl rfl (fun i hi => hxz i hi) (fun i hi => hyz i hi) ?_
  have hfirst : DefinitionList.termPairs x.node.children =
      [⟨[], [.text "filter"], [.element "over-text" [] [.element "item-text" [] [.text "size"]]]⟩] :=
    rfl
  have hsecond : DefinitionList.termPairs y.node.children =
      [⟨[], [.text "page"], [.text "lent"]⟩, ⟨[], [.text "limit"], []⟩] := rfl
  rw [hfirst, hsecond]
  decide

/-- The first list is nested in the third one, and the second list lends to it there. If its own
turn comes later, it lends on what it was lent. -/
theorem mergeLists_not_comm_of_nested :
    let a : Arena := ⟨[⟨"item-text", [], [.text "size"]⟩, ⟨"over-text", [], [.element 0]⟩,
      ⟨"item-text", [], [.text "unit"]⟩, ⟨"over-text", [], [.element 2]⟩,
      ⟨"item-text", [], [.text "filter"]⟩, ⟨"over-text", [], [.element 4, .element 3]⟩,
      ⟨"item-text", [], [.text "filter"]⟩, ⟨"over-text", [], [.element 6, .element 1]⟩]⟩
    let merged := fun i j => (a.mergeLists i 7).bind fun b =>
      (b.mergeLists j 7).bind fun b => b.tree? (.element 7)
    (merged 1 5).map Node.flatten = some "filtersizeunitsize" ∧
      (merged 5 1).map Node.flatten = some "filtersizeunitsizeunit" :=
  ⟨by cbv, by cbv⟩

end Arena
end RouteDocs
