import RouteDocs.Proofs.Json.Cut
import RouteDocs.Proofs.Json.Repeated

/-!
# Reading what was written

The reader takes the tokens of a value within any lists and mappings that it
has begun, and goes on with the value complete. A member whose key has come
before gives it another value, and one whose key is new goes last, so the members
of a mapping come back in their order, each key once. The reader stops at the first
number that it does not take.

Results:
* `readFrom_valueTokens`: the tokens of a value complete the value.
* `readFrom_notInRange`: the tokens of a value with a number out of range are refused.
* `read_of_tokens`: a text with the tokens of a value has the value, with each key once.
* `readValue_valueTokens`: a value that can be stored is read from its tokens.
* `readValue_tooLong`: a value with an integer that is too long is refused.
-/
namespace RouteDocs

namespace Json

def resume : Turn → List Token → Except ReadProblem (Value × List Token)
  | .go next frames, ts => readFrom next frames ts
  | .done v, ts => .ok (v, ts)
  | .fail p, _ => .error p

theorem readFrom_cons (next : Awaiting) (frames : List Frame) (t : Token) (ts : List Token) :
    readFrom next frames (t :: ts) = resume (step frames t next) ts := by
  rw [readFrom]
  cases step frames t next <;> rfl

theorem readFrom_firstItem (frames : List Frame) (v : Value) (ts : List Token) :
    readFrom .firstItem frames (valueTokens v ++ ts) =
      readFrom .value (.items [] :: frames) (valueTokens v ++ ts) := by
  cases v <;> rfl

theorem readFrom_firstKey (frames : List Frame) (k : String) (ts : List Token) :
    readFrom .firstKey frames (.text (some k) :: ts) =
      readFrom (.nextKey []) frames (.text (some k) :: ts) :=
  rfl

theorem readFrom_nextKey (before : Entries String Value) (frames : List Frame) (k : String)
    (ts : List Token) :
    readFrom (.nextKey before) frames (.text (some k) :: .colon :: ts) =
      readFrom .value (.members before k :: frames) ts :=
  rfl

theorem itemTokens_cons_cons (v w : Value) (items : List Value) :
    itemTokens (v :: w :: items) = valueTokens v ++ .comma :: itemTokens (w :: items) :=
  rfl

theorem memberTokens_cons_cons (k : String) (v : Value) (m : String × Value)
    (members : List (String × Value)) :
    memberTokens ((k, v) :: m :: members) =
      .text (some k) :: .colon :: (valueTokens v ++ .comma :: memberTokens (m :: members)) :=
  rfl

theorem itemTokens_cons (v : Value) (items : List Value) :
    ∃ more, itemTokens (v :: items) = valueTokens v ++ more := by
  cases items with
  | nil => exact ⟨[], (List.append_nil _).symm⟩
  | cons w items => exact ⟨_, rfl⟩

theorem memberTokens_cons (k : String) (v : Value) (members : List (String × Value)) :
    ∃ more, memberTokens ((k, v) :: members) = .text (some k) :: more := by
  cases members with
  | nil => exact ⟨_, rfl⟩
  | cons m members => exact ⟨_, rfl⟩

mutual

/-- The tokens of a value complete the value, with each key once. -/
theorem readFrom_valueTokens (frames : List Frame) (ts : List Token) : ∀ v : Value,
    v.isInRange = true →
      readFrom .value frames (valueTokens v ++ ts) = resume (settle v.withoutRepeats frames) ts
  | .null, _ => readFrom_cons ..
  | .bool b, _ => readFrom_cons ..
  | .int n, h => by
    have hshort : isTooLong n = false := by rwa [Value.isInRange, Bool.not_eq_true'] at h
    rw [valueTokens, List.singleton_append, readFrom_cons, step, startValue, hshort]
    rfl
  | .real x, h => by
    cases x with
    | infinite negative => cases h
    | notANumber => exact readFrom_cons ..
    | finite negative m e => exact readFrom_cons ..
  | .text s, _ => readFrom_cons ..
  | .list [], _ => by
    rw [valueTokens, itemTokens, List.nil_append, List.cons_append, readFrom_cons]
    exact readFrom_cons ..
  | .list (v :: items), h => by
    have hitems := readFrom_itemTokens frames ts [] (v :: items) (List.cons_ne_nil _ _)
      (Value.isInRange_list.1 h)
    obtain ⟨more, hmore⟩ := itemTokens_cons v items
    rw [valueTokens, List.cons_append, List.append_assoc, readFrom_cons]
    rw [hmore, List.append_assoc] at hitems ⊢
    exact (readFrom_firstItem frames v _).trans hitems
  | .mapping [], _ => by
    rw [valueTokens, memberTokens, List.nil_append, List.cons_append, readFrom_cons]
    exact readFrom_cons ..
  | .mapping ((k, v) :: members), h => by
    have hmembers := readFrom_memberTokens frames ts [] ((k, v) :: members) (List.cons_ne_nil _ _)
      (Value.isInRange_mapping.1 h)
    obtain ⟨more, hmore⟩ := memberTokens_cons k v members
    rw [valueTokens, List.cons_append, List.append_assoc, readFrom_cons]
    rw [hmore] at hmembers ⊢
    exact (readFrom_firstKey frames k _).trans hmembers

theorem readFrom_itemTokens (frames : List Frame) (ts : List Token) (before : List Value) :
    ∀ items : List Value, items ≠ [] → (∀ v ∈ items, v.isInRange = true) →
      readFrom .value (.items before :: frames) (itemTokens items ++ ([.closeList] ++ ts)) =
        resume (settle (.list (before.reverse ++ Value.itemsWithoutRepeats items)) frames) ts
  | [], hne, _ => absurd rfl hne
  | [v], _, h => by
    rw [itemTokens, readFrom_valueTokens _ _ v (h v (List.mem_cons_self ..)), settle, resume,
      List.singleton_append, readFrom_cons, step, List.reverse_cons]
    rfl
  | v :: w :: items, _, h => by
    obtain ⟨hv, hrest⟩ := List.forall_mem_cons.1 h
    rw [itemTokens_cons_cons, List.append_assoc, readFrom_valueTokens _ _ v hv, settle, resume,
      List.cons_append, readFrom_cons, step, resume,
      readFrom_itemTokens frames ts (v.withoutRepeats :: before) (w :: items)
        (List.cons_ne_nil _ _) hrest,
      List.reverse_cons, List.append_assoc, List.singleton_append]
    rfl

theorem readFrom_memberTokens (frames : List Frame) (ts : List Token)
    (before : Entries String Value) : ∀ members : List (String × Value), members ≠ [] →
    (∀ m ∈ members, m.2.isInRange = true) →
      readFrom (.nextKey before) frames (memberTokens members ++ ([.closeMapping] ++ ts)) =
        resume (settle (.mapping ((Value.membersWithoutRepeats members).foldl
          (fun es (k, v) => Entries.put es k v) before)) frames) ts
  | [], hne, _ => absurd rfl hne
  | [(k, v)], _, h => by
    rw [memberTokens, List.cons_append, List.cons_append, readFrom_nextKey,
      readFrom_valueTokens _ _ v (h (k, v) (List.mem_cons_self ..)), settle, resume,
      List.singleton_append, readFrom_cons, step]
    rfl
  | (k, v) :: m :: members, _, h => by
    obtain ⟨hv, hrest⟩ := List.forall_mem_cons.1 h
    rw [memberTokens_cons_cons, List.cons_append, List.cons_append, readFrom_nextKey,
      List.append_assoc, readFrom_valueTokens _ _ v hv, settle, resume, List.cons_append,
      readFrom_cons, step, resume,
      readFrom_memberTokens frames ts (Entries.put before k v.withoutRepeats) (m :: members)
        (List.cons_ne_nil _ _) hrest]
    rfl

end

theorem readValue_of_isInRange {v : Value} (hv : v.isInRange = true) (ts : List Token) :
    readValue (valueTokens v ++ ts) = .ok (v.withoutRepeats, ts) :=
  readFrom_valueTokens [] ts v hv

/-- A text with the tokens of a value has the value, with each key once. -/
theorem read_of_tokens {s : List Text.Symbol} {v : Value} (h : tokens s = valueTokens v)
    (hv : v.isInRange = true) : read s = .ok v.withoutRepeats := by
  have hread := readValue_of_isInRange hv []
  rw [List.append_nil] at hread
  rw [read, h, hread]

theorem readValue_valueTokens {v : Value} (hv : v.isStorable = true) :
    readValue (valueTokens v) = .ok (v, []) := by
  have hrange := (Value.isStorable_eq_isInRange (Value.isJson_of_isStorable v hv)).symm.trans hv
  have hread := readValue_of_isInRange hrange []
  rwa [List.append_nil, Value.withoutRepeats_of_isStorable hv] at hread

/-! ## Numbers out of range -/

/-- The reader has stopped at a number: at an integer that is too long, or at a number that is too
great, which no value of a file has. -/
def StopsAtNumber (isJson : Prop) (r : Except ReadProblem (Value × List Token)) : Prop :=
  ∃ place, r = .error (.intTooLong place) ∨ ¬ isJson ∧ r = .error (.realTooGreat place)

theorem StopsAtNumber.imp {p q : Prop} {r : Except ReadProblem (Value × List Token)}
    (h : StopsAtNumber p r) (hqp : q → p) : StopsAtNumber q r := by
  obtain ⟨place, hlong | ⟨hnot, hgreat⟩⟩ := h
  · exact ⟨place, .inl hlong⟩
  · exact ⟨place, .inr ⟨fun hq => hnot (hqp hq), hgreat⟩⟩

mutual

/-- The tokens of a value with a number out of range are refused at a number. -/
theorem readFrom_notInRange (frames : List Frame) (ts : List Token) : ∀ v : Value,
    v.isInRange = false → StopsAtNumber v.IsJson (readFrom .value frames (valueTokens v ++ ts))
  | .null, h => nomatch h
  | .bool _, h => nomatch h
  | .int n, h => by
    have hlong : isTooLong n = true := by simpa [Value.isInRange] using h
    refine ⟨placeOf frames, .inl ?_⟩
    rw [valueTokens, List.singleton_append, readFrom_cons, step, startValue, if_pos hlong, resume]
  | .real x, h => by
    cases x with
    | finite negative m e => cases h
    | notANumber => cases h
    | infinite negative =>
      refine ⟨placeOf frames, .inr ⟨fun hjson => ?_, readFrom_cons ..⟩⟩
      cases hjson with
      | real hx => cases hx
  | .text _, h => nomatch h
  | .list [], h => nomatch h
  | .list (v :: items), h => by
    have hitems := readFrom_notInRange_items frames ([.closeList] ++ ts) [] (v :: items)
      (Value.exists_of_isInRange_eq_false h)
    obtain ⟨more, hmore⟩ := itemTokens_cons v items
    rw [valueTokens, List.cons_append, List.append_assoc, readFrom_cons]
    rw [hmore, List.append_assoc] at hitems ⊢
    rw [← readFrom_firstItem] at hitems
    exact hitems.imp Value.isJson_list.1
  | .mapping [], h => nomatch h
  | .mapping ((k, v) :: members), h => by
    have hmembers := readFrom_notInRange_members frames ([.closeMapping] ++ ts) []
      ((k, v) :: members) (Value.exists_member_of_isInRange_eq_false h)
    obtain ⟨more, hmore⟩ := memberTokens_cons k v members
    rw [valueTokens, List.cons_append, List.append_assoc, readFrom_cons]
    rw [hmore] at hmembers ⊢
    rw [List.cons_append, ← readFrom_firstKey] at hmembers
    exact hmembers.imp fun hjson => (Value.isJson_mapping.1 hjson).2

theorem readFrom_notInRange_items (frames : List Frame) (ts : List Token) (before : List Value) :
    ∀ items : List Value, (∃ v ∈ items, v.isInRange = false) →
      StopsAtNumber (∀ v ∈ items, v.IsJson)
        (readFrom .value (.items before :: frames) (itemTokens items ++ ts))
  | [], h => by simp at h
  | [v], h => by
    rw [itemTokens]
    exact (readFrom_notInRange _ ts v (by simpa using h)).imp fun hall => hall v (by simp)
  | v :: w :: items, h => by
    rw [itemTokens_cons_cons, List.append_assoc, List.cons_append]
    cases hv : v.isInRange with
    | false => exact (readFrom_notInRange _ _ v hv).imp fun hall => hall v (by simp)
    | true =>
      have hrest : ∃ x ∈ w :: items, x.isInRange = false := by simpa [hv] using h
      rw [readFrom_valueTokens _ _ v hv, settle, resume, readFrom_cons, step, resume]
      exact (readFrom_notInRange_items frames ts _ (w :: items) hrest).imp fun hall =>
        (List.forall_mem_cons.1 hall).2

theorem readFrom_notInRange_members (frames : List Frame) (ts : List Token)
    (before : Entries String Value) : ∀ members : List (String × Value),
    (∃ m ∈ members, m.2.isInRange = false) →
      StopsAtNumber (∀ m ∈ members, m.2.IsJson)
        (readFrom (.nextKey before) frames (memberTokens members ++ ts))
  | [], h => by simp at h
  | [(k, v)], h => by
    rw [memberTokens, List.cons_append, List.cons_append, readFrom_nextKey]
    exact (readFrom_notInRange _ ts v (by simpa using h)).imp fun hall => hall (k, v) (by simp)
  | (k, v) :: m :: members, h => by
    rw [memberTokens_cons_cons, List.cons_append, List.cons_append, readFrom_nextKey,
      List.append_assoc, List.cons_append]
    cases hv : v.isInRange with
    | false => exact (readFrom_notInRange _ _ v hv).imp fun hall => hall (k, v) (by simp)
    | true =>
      have hrest : ∃ x ∈ m :: members, x.2.isInRange = false := by simpa [hv] using h
      rw [readFrom_valueTokens _ _ v hv, settle, resume, readFrom_cons, step, resume]
      exact (readFrom_notInRange_members frames ts _ (m :: members) hrest).imp fun hall =>
        (List.forall_mem_cons.1 hall).2

end

theorem readValue_notInRange {v : Value} (hv : v.isInRange = false) (ts : List Token) :
    StopsAtNumber v.IsJson (readValue (valueTokens v ++ ts)) :=
  readFrom_notInRange [] ts v hv

/-- A value with an integer that is too long is not read from its tokens. -/
theorem readValue_tooLong {v : Value} (hv : v.IsJson) (hlong : v.isStorable = false) :
    ∃ place, readValue (valueTokens v) = .error (.intTooLong place) := by
  have hrange := (Value.isStorable_eq_isInRange hv).symm.trans hlong
  obtain ⟨place, hread⟩ := readValue_notInRange hrange []
  rw [List.append_nil] at hread
  exact ⟨place, hread.resolve_right fun ⟨hnot, _⟩ => hnot hv⟩

end Json
end RouteDocs
