import RouteDocs.Text.CodePoint
import Mathlib.Data.List.DropRight

/-!
# Trimmed texts

Results:
* `mem_of_mem_trim`: nothing comes into a text that is trimmed.
* `hasBareEnds_trimWith`, `trimWith_eq_self`: a trimmed text has no blanks at its ends, and one
  without blanks at its ends is trimmed.
* `trim_append`: a text without blanks at its ends is what is left of it between blanks.
-/
namespace RouteDocs.Text

theorem mem_of_mem_trim {s : List Char} {c : Char} (h : c ∈ trim s) : c ∈ s := by
  rw [trim, trimWith, List.mem_reverse] at h
  have hrev := (List.dropWhile_sublist _).subset h
  exact (List.dropWhile_sublist _).subset (List.mem_reverse.1 hrev)

section
variable {α : Type} {blank : α → Bool} {s : List α}

structure HasBareEnds (blank : α → Bool) (s : List α) : Prop where
  first : ∀ c ∈ s.head?, blank c = false
  last : ∀ c ∈ s.getLast?, blank c = false

theorem dropWhile_eq_self (h : ∀ c ∈ s.head?, blank c = false) : s.dropWhile blank = s := by
  cases s with
  | nil => rfl
  | cons c s => rw [List.dropWhile_cons, h c rfl, if_neg Bool.false_ne_true]

theorem trimWith_eq_self (h : HasBareEnds blank s) : trimWith blank s = s := by
  rw [trimWith, dropWhile_eq_self h.first, dropWhile_eq_self (by simpa using h.last),
    List.reverse_reverse]

/-- What is left of a trimmed text has no blanks at its ends. -/
theorem hasBareEnds_trimWith (blank : α → Bool) (s : List α) :
    HasBareEnds blank (trimWith blank s) := by
  have hfirst : ∀ t : List α, ∀ c ∈ (t.dropWhile blank).head?, blank c = false := by
    intro t c hc
    have hnot := List.head?_dropWhile_not blank t
    rwa [Option.mem_def.1 hc] at hnot
  constructor
  · intro c hc
    obtain ⟨cut, hcut⟩ : trimWith blank s <+: s.dropWhile blank := List.rdropWhile_prefix blank _
    refine hfirst s c ?_
    rw [← hcut, List.head?_append, Option.mem_def.1 hc]
    rfl
  · intro c hc
    rw [trimWith, List.getLast?_reverse] at hc
    exact hfirst _ c hc

end

theorem trim_eq_self {s : List Char} (hfirst : ∀ c ∈ s.head?, isBlank c = false)
    (hlast : ∀ c ∈ s.getLast?, isBlank c = false) : trim s = s :=
  trimWith_eq_self ⟨hfirst, hlast⟩

/-- Blanks around a text that has none at its ends are cut off. -/
theorem trim_append {before s after : List Char} (hbefore : ∀ c ∈ before, isBlank c = true)
    (hafter : ∀ c ∈ after, isBlank c = true) (hs : s ≠ [])
    (hfirst : ∀ c ∈ s.head?, isBlank c = false) (hlast : ∀ c ∈ s.getLast?, isBlank c = false) :
    trim (before ++ (s ++ after)) = s := by
  have hhead : ∀ c ∈ (s ++ after).head?, isBlank c = false := by
    obtain ⟨d, rest, rfl⟩ := List.exists_cons_of_ne_nil hs
    exact hfirst
  rw [trim, trimWith, List.dropWhile_append_of_pos hbefore, dropWhile_eq_self hhead,
    List.reverse_append, List.dropWhile_append_of_pos (by simpa using hafter),
    dropWhile_eq_self (by simpa using hlast), List.reverse_reverse]

end RouteDocs.Text
