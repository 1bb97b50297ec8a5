import RouteDocs.Proofs.DefinitionList.Terms

/-!
# What a merge holds

A merge writes a table of terms: under a text of the receiving list its own last
term, changed at most inside the first list nested in it, and under any other
text the last term that the other list lends. Laws of the merge are therefore
settled text by text.

Results:
* `firstList?_mapFirstList`, `mapFirstList_eq_self_iff`: the first list of a definition
  after it was changed.
* `nested_induction`: from the lists nested in a list to the list.
* `lastTerm?_merge`: what a merge holds under a text.
* `eq_merge_iff`: a list is a merge if it is in order and holds what the merge holds.
-/
namespace RouteDocs.DefinitionList

/-! ## The first list of a definition -/

theorem isA_withChildren (n : Node) (cs : List Node) (k : Kind) :
    (n.withChildren cs).isA k = n.isA k := by
  cases n <;> rfl

theorem children_withChildren {n : Node} {k : Kind} (h : n.isA k = true) (cs : List Node) :
    (n.withChildren cs).children = cs := by
  obtain ⟨as, ds, rfl⟩ := Node.isA_iff.1 h
  rfl

theorem isContent_of_isA {n : Node} (h : n.isA .definitionList = true) : isContent n = true := by
  obtain ⟨as, cs, rfl⟩ := Node.isA_iff.1 h
  simp [isContent, marker?, Kind.name]

theorem firstList?_mapFirstList (f : List Node → List Node) (ns : List Node) :
    firstList? (mapFirstList f ns) = (firstList? ns).map f := by
  induction ns with
  | nil => rfl
  | cons n rest ih =>
    by_cases h : n.isA .definitionList = true
    · simp [mapFirstList, firstList?, h, isA_withChildren, children_withChildren h]
    · simpa [mapFirstList, firstList?, h] using ih

theorem mapFirstList_eq_iff (f g : List Node → List Node) (ns : List Node) :
    mapFirstList f ns = mapFirstList g ns ↔ ∀ cs, firstList? ns = some cs → f cs = g cs := by
  induction ns with
  | nil => simp [mapFirstList, firstList?]
  | cons n rest ih =>
    by_cases h : n.isA .definitionList = true
    · obtain ⟨as, cs, rfl⟩ := Node.isA_iff.1 h
      simp [mapFirstList, firstList?, h, Node.withChildren, Node.children]
    · simpa [mapFirstList, firstList?, h] using ih

theorem mapFirstList_id (ns : List Node) : mapFirstList id ns = ns := by
  induction ns with
  | nil => rfl
  | cons n rest ih =>
    by_cases h : n.isA .definitionList = true
    · obtain ⟨as, cs, rfl⟩ := Node.isA_iff.1 h
      simp [mapFirstList, h, Node.withChildren, Node.children]
    · simpa [mapFirstList, h] using ih

theorem mapFirstList_eq_self_iff (f : List Node → List Node) (ns : List Node) :
    mapFirstList f ns = ns ↔ ∀ cs, firstList? ns = some cs → f cs = cs := by
  have := mapFirstList_eq_iff f id ns
  rwa [mapFirstList_id] at this

theorem isContent_mapFirstList {f : List Node → List Node} {ns : List Node}
    (h : ∀ n ∈ ns, isContent n = true) : ∀ n ∈ mapFirstList f ns, isContent n = true := by
  induction ns with
  | nil => exact h
  | cons m rest ih =>
    intro n hn
    have hrest := fun n hn => h n (List.mem_cons_of_mem m hn)
    by_cases hm : m.isA .definitionList = true
    · simp only [mapFirstList, hm, if_pos, List.mem_cons] at hn
      rcases hn with rfl | hn
      · exact isContent_of_isA (by rwa [isA_withChildren])
      · exact hrest n hn
    · simp only [mapFirstList, hm, Bool.false_eq_true, if_false, List.mem_cons] at hn
      rcases hn with rfl | hn
      · exact h n List.mem_cons_self
      · exact ih hrest n hn

/-- Induction from the lists nested in the last terms of a list to the list itself: the
order in which a merge goes down its source. -/
@[elab_as_elim]
theorem nested_induction {motive : List Node → Prop} (source : List Node)
    (step : ∀ source, (∀ t q inner, lastTerm? source t = some q →
      firstList? q.definition = some inner → motive inner) → motive source) : motive source :=
  step source fun t _ _ hq hi =>
    have := sizeOf_nested ((get?_byTerm source t).trans hq) hi
    nested_induction _ step
termination_by sizeOf source

/-! ## A term that meets the term of the same text -/

theorem absorb_none (p : TermPair) : absorb none p = p := rfl

theorem text_absorb (lent : Option TermPair) (p : TermPair) : (absorb lent p).text = p.text := by
  unfold absorb
  split <;> rfl

theorem isContent_absorb {lent : Option TermPair} {p : TermPair}
    (h : ∀ n ∈ p.definition, isContent n = true) :
    ∀ n ∈ (absorb lent p).definition, isContent n = true := by
  unfold absorb
  split
  · exact h
  · exact isContent_mapFirstList h

theorem absorb_some (q p : TermPair) :
    absorb (some q) p = match firstList? q.definition with
      | none => p
      | some inner => { p with definition := mapFirstList (merge inner) p.definition } := by
  rfl

theorem definition_absorb {q : TermPair} {inner : List Node}
    (hi : firstList? q.definition = some inner) (p : TermPair) :
    absorb (some q) p = { p with definition := mapFirstList (merge inner) p.definition } := by
  rw [absorb_some, hi]

/-- A term is as it was after it met another one exactly if the merge of the lists nested
in the two changes nothing. -/
theorem absorb_eq_self_iff (q p : TermPair) :
    absorb (some q) p = p ↔ ∀ inner own, firstList? q.definition = some inner →
      firstList? p.definition = some own → merge inner own = own := by
  cases hi : firstList? q.definition with
  | none => simp [absorb_some, hi]
  | some inner =>
    have hdef : absorb (some q) p = p ↔ mapFirstList (merge inner) p.definition = p.definition := by
      rw [definition_absorb hi]
      cases p
      simp
    rw [hdef, mapFirstList_eq_self_iff]
    constructor
    · rintro h _ own ⟨⟩ ho
      exact h own ho
    · exact fun h own ho => h inner own rfl ho

theorem firstList?_absorb {q : TermPair} {inner : List Node}
    (hi : firstList? q.definition = some inner) (p : TermPair) :
    firstList? (absorb (some q) p).definition = (firstList? p.definition).map (merge inner) := by
  rw [definition_absorb hi, firstList?_mapFirstList]

/-! ## The table of a merge -/

/-- The table that a merge writes. -/
def merged (source dest : List Node) : Entries String TermPair :=
  (byTerm dest).map (fun (t, p) => (t, absorb (Entries.get? (byTerm source) t) p)) ++
    (byTerm source).filter fun (t, _) => (Entries.get? (byTerm dest) t).isNone

theorem merge_eq_inOrder (source dest : List Node) :
    merge source dest = inOrder (merged source dest) :=
  merge_eq source dest

/-- What a merge holds under a text: the receiving list's own last term, once it has met
the last term of the other list, or else that one. -/
def mergedTerm? (source dest : List Node) (t : String) : Option TermPair :=
  ((lastTerm? dest t).map (absorb (lastTerm? source t))).or (lastTerm? source t)

theorem get?_merged (source dest : List Node) (t : String) :
    Entries.get? (merged source dest) t = mergedTerm? source dest t := by
  rw [mergedTerm?, merged, Entries.get?_append,
    Entries.get?_map fun t p => absorb (Entries.get? (byTerm source) t) p,
    Entries.get?_filter fun t => (Entries.get? (byTerm dest) t).isNone]
  simp only [get?_byTerm]
  cases lastTerm? dest t <;> simp

theorem wellFiled_merged (source dest : List Node) : WellFiled (merged source dest) := by
  have hs := wellFiled_byTerm source
  have hd := wellFiled_byTerm dest
  have hkept : ∀ t p, (t, p) ∈ merged source dest →
      (∃ q, (t, q) ∈ byTerm dest ∧ p = absorb (Entries.get? (byTerm source) t) q) ∨
        (t, p) ∈ byTerm source := by
    intro t p h
    rcases List.mem_append.1 h with h | h
    · obtain ⟨⟨u, q⟩, hq, he⟩ := List.mem_map.1 h
      cases he
      exact .inl ⟨q, hq, rfl⟩
    · exact .inr (List.mem_filter.1 h).1
  refine ⟨?_, fun t p h => ?_, fun t p h => ?_⟩
  · rw [merged, Entries.keys, List.map_append, List.nodup_append]
    refine ⟨?_, Entries.nodup_filter _ hs.nodup, ?_⟩
    · have := Entries.keys_map (fun t p => absorb (Entries.get? (byTerm source) t) p) (byTerm dest)
      rw [Entries.keys] at this
      exact this ▸ hd.nodup
    · rintro t ht u hu rfl
      obtain ⟨⟨u, q⟩, hq, rfl⟩ := List.mem_map.1 ht
      obtain ⟨⟨u, r⟩, hr, he⟩ := List.mem_map.1 hu
      obtain ⟨⟨v, q'⟩, hq', he'⟩ := List.mem_map.1 hq
      cases he
      cases he'
      have hget := Entries.get?_of_mem hd.nodup hq'
      simpa [hget] using (List.mem_filter.1 hr).2
  · rcases hkept t p h with ⟨q, hq, rfl⟩ | hq
    · rw [text_absorb, hd.text_eq t q hq]
    · exact hs.text_eq t p hq
  · rcases hkept t p h with ⟨q, hq, rfl⟩ | hq
    · exact isContent_absorb (hd.content t q hq)
    · exact hs.content t p hq

theorem lastTerm?_merge (source dest : List Node) (t : String) :
    lastTerm? (merge source dest) t = mergedTerm? source dest t := by
  rw [merge_eq_inOrder, lastTerm?_inOrder (wellFiled_merged source dest), get?_merged]

theorem preamble_merge (source dest : List Node) : preamble (merge source dest) = [] := by
  rw [merge_eq_inOrder, preamble_inOrder]

theorem increasing_merge (source dest : List Node) : Increasing (termPairs (merge source dest)) := by
  rw [merge_eq_inOrder, termPairs_inOrder (wellFiled_merged source dest)]
  exact increasing_ordered (wellFiled_merged source dest)

/-- A list is a merge if it is in order and holds what the merge holds. -/
theorem eq_merge_iff {source dest children : List Node} :
    children = merge source dest ↔ preamble children = [] ∧ Increasing (termPairs children) ∧
      ∀ t, lastTerm? children t = mergedTerm? source dest t := by
  rw [merge_eq_inOrder, eq_inOrder_iff (wellFiled_merged source dest)]
  simp only [get?_merged]

end RouteDocs.DefinitionList
