import RouteDocs.Entries

/-!
# Keyed entries by their look-up

What the look-up of `Entries` says about the entries themselves. Entries whose
keys are distinct are known by their look-up up to order, and a row of pairs
put one after the other keeps, for each key, the last value given to it.

Results:
* `mem_iff_get?`: with distinct keys, the entries are the pairs that the look-up gives.
* `get?_ofPairs`: the last pair of a key counts.
* `put_map`, `ofPairs_map`: values may be changed before or after they are put.
* `pairwise_mergeSort`: entries in the order of their keys.
-/
namespace RouteDocs.Entries

variable {κ α β : Type}

def keys (es : Entries κ α) : List κ :=
  es.map Prod.fst

theorem mem_keys_of_mem {es : Entries κ α} {k : κ} {v : α} (h : (k, v) ∈ es) : k ∈ keys es :=
  List.mem_map.2 ⟨(k, v), h, rfl⟩

variable [DecidableEq κ]

theorem get?_of_mem {es : Entries κ α} (hn : (keys es).Nodup) {k : κ} {v : α} (h : (k, v) ∈ es) :
    get? es k = some v := by
  induction es with
  | nil => cases h
  | cons e rest ih =>
    obtain ⟨k₀, v₀⟩ := e
    simp only [keys, List.map_cons, List.nodup_cons] at hn
    rcases List.mem_cons.1 h with h | h
    · cases h
      simp [get?]
    · have hne : k₀ ≠ k := by
        rintro rfl
        exact hn.1 (mem_keys_of_mem h)
      rw [get?, if_neg hne]
      exact ih hn.2 h

/-- With distinct keys, the entries are the pairs that the look-up gives. -/
theorem mem_iff_get? {es : Entries κ α} (hn : (keys es).Nodup) {k : κ} {v : α} :
    (k, v) ∈ es ↔ get? es k = some v :=
  ⟨get?_of_mem hn, mem_of_get?⟩

/-- With distinct keys, the look-up does not see the order of the entries. -/
theorem get?_perm {es fs : Entries κ α} (hn : (keys es).Nodup) (h : es.Perm fs) (k : κ) :
    get? fs k = get? es k := by
  have hn' : (keys fs).Nodup := (h.map Prod.fst).nodup hn
  ext v
  rw [← mem_iff_get? hn, ← mem_iff_get? hn', h.mem_iff]

/-! ## What the operations do to the keys and to the look-up -/

theorem keys_put (es : Entries κ α) (key : κ) (value : α) :
    keys (put es key value) = if key ∈ keys es then keys es else keys es ++ [key] := by
  induction es with
  | nil => simp [put, keys]
  | cons e rest ih =>
    obtain ⟨k₀, v₀⟩ := e
    by_cases h : k₀ = key
    · simp [put, keys, h]
    · simp only [keys] at ih
      by_cases hm : key ∈ rest.map Prod.fst <;> simp_all [put, keys, Ne.symm h]

theorem get?_put_eq_some_iff {es : Entries κ α} {key k : κ} {value v : α} :
    get? (put es key value) k = some v ↔ key = k ∧ value = v ∨ key ≠ k ∧ get? es k = some v := by
  rw [get?_put]
  split <;> simp_all

theorem put_put (es : Entries κ α) (key : κ) (v w : α) : put (put es key v) key w = put es key w := by
  induction es with
  | nil => simp [put]
  | cons e rest ih =>
    obtain ⟨k, u⟩ := e
    by_cases h : k = key
    · simp [put, h]
    · simp [put, h, ih]

theorem nodup_put {es : Entries κ α} (hn : (keys es).Nodup) (key : κ) (value : α) :
    (keys (put es key value)).Nodup := by
  rw [keys_put]
  split
  · exact hn
  · rename_i h
    refine List.nodup_append.2 ⟨hn, by simp, ?_⟩
    rintro a ha b hb rfl
    rw [List.mem_singleton.1 hb] at ha
    exact h ha

theorem nodup_foldl_put (pairs : List (κ × α)) (es : Entries κ α) (hn : (keys es).Nodup) :
    (keys (pairs.foldl (fun es (k, v) => put es k v) es)).Nodup := by
  induction pairs generalizing es with
  | nil => exact hn
  | cons e rest ih => exact ih _ (nodup_put hn _ _)

theorem nodup_ofPairs (pairs : List (κ × α)) : (keys (ofPairs pairs)).Nodup :=
  nodup_foldl_put pairs [] (by simp [keys])

theorem get?_foldl_put (pairs : List (κ × α)) (es : Entries κ α) (k : κ) :
    get? (pairs.foldl (fun es (k, v) => put es k v) es) k =
      ((pairs.filter fun e => e.1 = k).getLast?.map Prod.snd).or (get? es k) := by
  induction pairs generalizing es with
  | nil => simp
  | cons e rest ih =>
    obtain ⟨k₀, v₀⟩ := e
    simp only [List.foldl_cons, ih, get?_put, List.filter_cons]
    by_cases h : k₀ = k
    · simp only [h, if_pos, decide_true, List.getLast?_cons]
      cases (rest.filter fun e => decide (e.1 = k)).getLast? <;> simp
    · simp [h]

/-- Of pairs put one after the other, the last one with a key counts. -/
theorem get?_ofPairs (pairs : List (κ × α)) (k : κ) :
    get? (ofPairs pairs) k = (pairs.filter fun e => e.1 = k).getLast?.map Prod.snd := by
  rw [ofPairs, get?_foldl_put]
  simp [get?]

theorem get?_map (f : κ → α → β) (es : Entries κ α) (k : κ) :
    get? (es.map fun (k, v) => (k, f k v)) k = (get? es k).map (f k) := by
  induction es with
  | nil => rfl
  | cons e rest ih =>
    obtain ⟨k₀, v₀⟩ := e
    by_cases h : k₀ = k
    · subst h
      simp [get?]
    · simpa [get?, h] using ih

omit [DecidableEq κ] in
theorem keys_map (f : κ → α → β) (es : Entries κ α) :
    keys (es.map fun (k, v) => (k, f k v)) = keys es := by
  simp [keys, Function.comp_def]

/-- Values may be changed before or after one is put. -/
theorem put_map (f : α → β) (es : Entries κ α) (key : κ) (value : α) :
    put (es.map fun (k, v) => (k, f v)) key (f value) =
      (put es key value).map fun (k, v) => (k, f v) := by
  induction es with
  | nil => rfl
  | cons e rest ih =>
    obtain ⟨k₀, v₀⟩ := e
    by_cases h : k₀ = key
    · simp [put, h]
    · simp [put, h, ih]

/-- Values may be changed before or after the pairs are put one after the other. -/
theorem ofPairs_map (f : α → β) (pairs : List (κ × α)) :
    ofPairs (pairs.map fun (k, v) => (k, f v)) = (ofPairs pairs).map fun (k, v) => (k, f v) := by
  have hfold : ∀ es : Entries κ α,
      (pairs.map fun (k, v) => (k, f v)).foldl (fun es (k, v) => put es k v)
        (es.map fun (k, v) => (k, f v)) =
      (pairs.foldl (fun es (k, v) => put es k v) es).map fun (k, v) => (k, f v) := by
    induction pairs with
    | nil => exact fun _ => rfl
    | cons e rest ih =>
      obtain ⟨k₀, v₀⟩ := e
      intro es
      simp only [List.map_cons, List.foldl_cons, put_map, ih]
  exact hfold []

/-- A new key goes last. -/
theorem put_of_not_mem {es : Entries κ α} {key : κ} (h : key ∉ keys es) (value : α) :
    put es key value = es ++ [(key, value)] := by
  induction es with
  | nil => rfl
  | cons e rest ih =>
    obtain ⟨k₀, v₀⟩ := e
    rw [keys, List.map_cons, List.mem_cons, not_or] at h
    rw [put, if_neg (Ne.symm h.1), ih h.2, List.cons_append]

theorem ofPairs_eq_self {pairs : List (κ × α)} (hn : (keys pairs).Nodup) :
    ofPairs pairs = pairs := by
  have hfold : ∀ es : Entries κ α, (keys (es ++ pairs)).Nodup →
      pairs.foldl (fun es (k, v) => put es k v) es = es ++ pairs := by
    clear hn
    induction pairs with
    | nil => exact fun es _ => (List.append_nil es).symm
    | cons e rest ih =>
      obtain ⟨k₀, v₀⟩ := e
      intro es hes
      have hkey : k₀ ∉ keys es := by
        rw [keys, List.map_append, List.nodup_append] at hes
        exact fun hmem => hes.2.2 k₀ hmem k₀ List.mem_cons_self rfl
      have hassoc : es ++ (k₀, v₀) :: rest = es ++ [(k₀, v₀)] ++ rest := by simp
      rw [List.foldl_cons, hassoc]
      simp only [put_of_not_mem hkey]
      exact ih _ (hassoc ▸ hes)
  exact hfold [] hn

/-- To put again what is there changes nothing. -/
theorem put_of_get? {es : Entries κ α} {key : κ} {value : α} (h : get? es key = some value) :
    put es key value = es := by
  induction es with
  | nil => cases h
  | cons e rest ih =>
    obtain ⟨k₀, v₀⟩ := e
    by_cases hk : k₀ = key
    · simp only [get?, hk, if_pos, Option.some.injEq] at h
      rw [put, if_pos hk, h]
    · simp only [get?, hk, if_neg, not_false_eq_true] at h
      rw [put, if_neg hk, ih h]

theorem get?_filter (p : κ → Bool) (es : Entries κ α) (k : κ) :
    get? (es.filter fun (k, _) => p k) k = if p k then get? es k else none := by
  induction es with
  | nil => simp [get?]
  | cons e rest ih =>
    obtain ⟨k₀, v₀⟩ := e
    by_cases h : k₀ = k
    · subst h
      by_cases hp : p k₀ <;> simp_all [get?]
    · by_cases hp : p k₀ <;> simp_all [get?]

omit [DecidableEq κ] in
theorem nodup_filter (p : κ × α → Bool) {es : Entries κ α} (hn : (keys es).Nodup) :
    (keys (es.filter p)).Nodup :=
  List.Sublist.nodup (List.Sublist.map _ List.filter_sublist) hn

/-- Entries in the order of their keys. -/
theorem pairwise_mergeSort (es : Entries String α) :
    (es.mergeSort fun a b => a.1 ≤ b.1).Pairwise fun a b => a.1 ≤ b.1 := by
  refine (List.pairwise_mergeSort ?_ ?_ es).imp (by simp)
  · intro a b c hab hbc
    simp only [decide_eq_true_eq] at hab hbc ⊢
    exact String.le_trans hab hbc
  · intro a b
    simpa using String.le_total a.1 b.1

end RouteDocs.Entries
