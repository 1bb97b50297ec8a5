/-!
# Entries in insertion order

A list of keyed entries whose order is part of the data. A key that is put
again keeps the place of its first entry; a new key goes last.

Results:
* `get?_put`, `get?_putNew`: what a key holds after it, or another, was put.
* `get?_append`: of two rows of entries the first is asked first.
* `mem_of_get?`, `mem_foldl_put`: what is found was put in.
-/
namespace RouteDocs

/-- Keyed entries in the order in which their keys first came. -/
abbrev Entries (κ α : Type) := List (κ × α)

namespace Entries

variable {κ α : Type} [DecidableEq κ]

/-- The value of a key, if it has one. -/
def get? : Entries κ α → κ → Option α
  | [], _ => none
  | (k, v) :: rest, key => if k = key then some v else get? rest key

/-- Give a key a value: in its place if it has one, else at the end. -/
def put : Entries κ α → κ → α → Entries κ α
  | [], key, value => [(key, value)]
  | (k, v) :: rest, key, value =>
    if k = key then (k, value) :: rest else (k, v) :: put rest key value

/-- Give a key a value unless it has one. -/
def putNew (es : Entries κ α) (key : κ) (value : α) : Entries κ α :=
  match get? es key with
  | some _ => es
  | none => es ++ [(key, value)]

def ofPairs (pairs : List (κ × α)) : Entries κ α :=
  pairs.foldl (fun es (k, v) => put es k v) []

theorem get?_put (es : Entries κ α) (key k : κ) (value : α) :
    get? (put es key value) k = if key = k then some value else get? es k := by
  induction es with
  | nil => simp [put, get?]
  | cons e rest ih =>
    obtain ⟨k₀, v₀⟩ := e
    by_cases h : k₀ = key
    · subst h
      by_cases hk : k₀ = k <;> simp [put, get?, hk]
    · by_cases hk : k₀ = k
      · subst hk
        simp [put, get?, h, Ne.symm h]
      · simp [put, get?, h, hk, ih]

theorem get?_append (es fs : Entries κ α) (k : κ) :
    get? (es ++ fs) k = (get? es k).or (get? fs k) := by
  induction es with
  | nil => simp [get?]
  | cons e rest ih =>
    obtain ⟨k₀, v₀⟩ := e
    by_cases h : k₀ = k <;> simp [get?, h, ih]

theorem get?_putNew (es : Entries κ α) (key k : κ) (value : α) :
    get? (putNew es key value) k =
      (get? es k).or (if key = k then some value else none) := by
  unfold putNew
  cases h : get? es key with
  | none => simp [get?_append, get?]
  | some v =>
    by_cases hk : key = k
    · subst hk
      simp [h]
    · simp [hk]

theorem mem_of_get? {es : Entries κ α} {key : κ} {value : α} (h : get? es key = some value) :
    (key, value) ∈ es := by
  induction es with
  | nil => simp [get?] at h
  | cons e rest ih =>
    obtain ⟨k₀, v₀⟩ := e
    by_cases hk : k₀ = key
    · simp only [get?, hk, if_pos, Option.some.injEq] at h
      simp [hk, h]
    · simp only [get?, hk, if_neg, not_false_eq_true] at h
      exact List.mem_cons_of_mem _ (ih h)

theorem mem_put {es : Entries κ α} {key : κ} {value : α} {e : κ × α} (h : e ∈ put es key value) :
    e ∈ es ∨ e = (key, value) := by
  induction es with
  | nil => simpa [put] using h
  | cons x rest ih =>
    obtain ⟨k₀, v₀⟩ := x
    by_cases hk : k₀ = key
    · simp only [put, hk, if_pos, List.mem_cons] at h
      rcases h with h | h
      · exact .inr h
      · exact .inl (List.mem_cons_of_mem _ h)
    · simp only [put, hk, if_neg, not_false_eq_true, List.mem_cons] at h
      rcases h with h | h
      · exact .inl (by simp [h])
      · rcases ih h with h | h
        · exact .inl (List.mem_cons_of_mem _ h)
        · exact .inr h

theorem mem_foldl_put (pairs : List (κ × α)) (es : Entries κ α) {e : κ × α}
    (h : e ∈ pairs.foldl (fun es (k, v) => put es k v) es) : e ∈ es ∨ e ∈ pairs := by
  induction pairs generalizing es with
  | nil => exact .inl h
  | cons x rest ih =>
    obtain ⟨k₀, v₀⟩ := x
    rcases ih (put es k₀ v₀) h with h | h
    · rcases mem_put h with h | h
      · exact .inl h
      · exact .inr (by simp [h])
    · exact .inr (List.mem_cons_of_mem _ h)

end Entries
end RouteDocs
