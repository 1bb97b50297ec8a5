import RouteDocs.Html.Escape
import RouteDocs.Identifier

/-!
# Entities

Five characters are written as entities between quotes, and every other one as
it is. An entity is an ampersand, a name of small letters, digits and the
number sign, and a semicolon.

Results:
* `escapeChar_of_notMem`, `escapeChar_of_mem`: what a character is written as.
* `notMem_special_of_isAllowed`: identifiers are written as they are.
* `notMem_escapeChars`: a character with a meaning of its own stands nowhere in
  escaped text.
-/
namespace RouteDocs.Html

/-! ## Deciding by members

What is said of the members of a text is decided by them, and not by a search through all
characters there are. -/

instance (priority := 2000) decidableForallMem {p : Char → Prop} [DecidablePred p]
    (s : List Char) : Decidable (∀ c ∈ s, p c) :=
  List.decidableBAll p s

instance (priority := 2000) decidableExistsMem {p : Char → Prop} [DecidablePred p]
    (s : List Char) : Decidable (∃ c ∈ s, p c) :=
  List.decidableBEx p s

/-! ## Entities -/

/-- The characters that are written as entities. -/
def special : List Char := ['&', '<', '>', '"', '\'']

/-- A character of an entity's name. -/
def isNameChar (c : Char) : Bool :=
  c.isLower || c.isDigit || c == '#'

theorem escapeChar_of_notMem {c : Char} (h : c ∉ special) : escapeChar true c = [c] := by
  simp only [special, List.mem_cons, List.not_mem_nil, or_false, not_or] at h
  obtain ⟨hamp, hlt, hgt, hquot, hapos⟩ := h
  unfold escapeChar
  split <;> simp_all

theorem escapeChar_of_mem {c : Char} (h : c ∈ special) :
    ∃ name, escapeChar true c = '&' :: (name ++ [';']) ∧ name ≠ [] ∧
      ∀ x ∈ name, isNameChar x = true := by
  simp only [special, List.mem_cons, List.not_mem_nil, or_false] at h
  rcases h with rfl | rfl | rfl | rfl | rfl
  · exact ⟨"amp".toList, rfl, by decide, by decide⟩
  · exact ⟨"lt".toList, rfl, by decide, by decide⟩
  · exact ⟨"gt".toList, rfl, by decide, by decide⟩
  · exact ⟨"quot".toList, rfl, by decide, by decide⟩
  · exact ⟨"#x27".toList, rfl, by decide, by decide⟩

/-- No character of an identifier is special. -/
theorem notMem_special_of_isAllowed {c : Char} (h : Identifier.isAllowed c = true) : c ∉ special := by
  intro hmem
  have hall : ∀ x ∈ special, Identifier.isAllowed x = false := by decide
  rw [hall c hmem] at h
  cases h

/-- What a character is written as: itself, or small letters, digits and signs. -/
theorem mem_escapeChar {c x : Char} (h : x ∈ escapeChar true c) :
    x = c ∧ c ∉ special ∨ c ∈ special ∧ (x = '&' ∨ x = ';' ∨ isNameChar x = true) := by
  by_cases hc : c ∈ special
  · obtain ⟨name, heq, -, hname⟩ := escapeChar_of_mem hc
    rw [heq, List.mem_cons, List.mem_append, List.mem_singleton] at h
    rcases h with rfl | h | rfl
    · exact .inr ⟨hc, .inl rfl⟩
    · exact .inr ⟨hc, .inr (.inr (hname x h))⟩
    · exact .inr ⟨hc, .inr (.inl rfl)⟩
  · rw [escapeChar_of_notMem hc, List.mem_singleton] at h
    exact .inl ⟨h, hc⟩

theorem escapeChar_ne_nil (c : Char) : escapeChar true c ≠ [] := by
  by_cases hc : c ∈ special
  · obtain ⟨name, heq, -, -⟩ := escapeChar_of_mem hc
    simp [heq]
  · simp [escapeChar_of_notMem hc]

theorem escapeChars_append (s t : List Char) :
    escapeChars true (s ++ t) = escapeChars true s ++ escapeChars true t :=
  List.flatMap_append

/-- Text in which nothing is special is written as it is. -/
theorem escapeChars_of_plain {s : List Char} (h : ∀ c ∈ s, c ∉ special) : escapeChars true s = s := by
  induction s with
  | nil => rfl
  | cons c rest ih =>
    rw [escapeChars, List.flatMap_cons, escapeChar_of_notMem (h c List.mem_cons_self)]
    exact congrArg (c :: ·) (ih fun d hd => h d (List.mem_cons_of_mem _ hd))

/-- Of the special characters only the ampersand stands in escaped text. -/
theorem notMem_escapeChars {x : Char} (hx : x ∈ special) (hamp : x ≠ '&') (s : List Char) :
    x ∉ escapeChars true s := by
  intro hmem
  obtain ⟨c, -, hc⟩ := List.mem_flatMap.1 hmem
  rcases mem_escapeChar hc with ⟨rfl, hplain⟩ | ⟨-, rfl | rfl | hname⟩
  · exact hplain hx
  · exact hamp rfl
  · exact absurd hx (by decide)
  · have hall : ∀ y ∈ special, isNameChar y = false := by decide
    rw [hall x hx] at hname
    cases hname

end RouteDocs.Html
