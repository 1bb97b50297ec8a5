import RouteDocs.Json.Token
import RouteDocs.Json.Writer

/-!
# Texts of a JSON text

Every character between quotes is written in a form that the reader takes as
one step: as itself, by a letter after the backslash, or by its code point. So
a text that was written is read back, and what follows is left.

Results:
* `hex4?_hexDigits`: a number of four hexadecimal digits is read back.
* `readText_writtenChar`: one character that was written is read back.
* `readText_writtenChars`: a text that was written is read back.
-/
namespace RouteDocs

namespace Text

theorem symbols_append (s t : String) : symbols (s ++ t) = symbols s ++ symbols t := by
  rw [symbols, String.toList_append, List.map_append, symbols, symbols]

end Text

namespace Json

open Text (Symbol)

/-! ## Hexadecimal digits -/

theorem hexValue?_hexDigit : ∀ n < 16, hexValue? (Text.hexDigit n) = some n := by
  decide

theorem hexDigits_four (n : Nat) :
    Text.hexDigits 4 n = [Text.hexDigit (n / 16 / 16 / 16 % 16), Text.hexDigit (n / 16 / 16 % 16),
      Text.hexDigit (n / 16 % 16), Text.hexDigit (n % 16)] :=
  rfl

/-- A number of four hexadecimal digits is read back. -/
theorem hex4?_hexDigits {n : Nat} (hn : n < 0x10000) (rest : List Symbol) :
    hex4? ((Text.hexDigits 4 n).map .char ++ rest) = some (n, rest) := by
  rw [hexDigits_four]
  simp only [List.map_cons, List.map_nil, List.cons_append, List.nil_append, hex4?]
  rw [hexValue?_hexDigit _ (Nat.mod_lt _ (by decide)), hexValue?_hexDigit _ (Nat.mod_lt _ (by decide)),
    hexValue?_hexDigit _ (Nat.mod_lt _ (by decide)), hexValue?_hexDigit _ (Nat.mod_lt _ (by decide))]
  have hvalue : ((n / 16 / 16 / 16 % 16 * 16 + n / 16 / 16 % 16) * 16 + n / 16 % 16) * 16 + n % 16 =
      n := by omega
  simp only [hvalue]

/-! ## Characters -/

theorem readText_quote (rest : List Symbol) : readText (.char '"' :: rest) = some ([], rest) := by
  rw [readText, if_pos rfl]

/-- A character that stands for itself. -/
theorem readText_plain {c : Char} (hquote : c ≠ '"') (hslash : c ≠ '\\') (hcontrol : ¬ c.toNat < 0x20)
    (rest : List Symbol) :
    readText (.char c :: rest) = (readText rest).map fun (t, r) => (.char c :: t, r) := by
  rw [readText, if_neg hquote, if_neg hslash, if_neg hcontrol]

/-- A character that stands behind a backslash. -/
theorem readText_escape {s rest : List Symbol} {c : Char} (h : escape? s = some (c, rest)) :
    readText (.char '\\' :: s) = (readText rest).map fun (t, r) => (.char c :: t, r) := by
  rw [readText, if_neg (by decide), if_pos rfl]
  split
  · rename_i hnone
    rw [h] at hnone
    cases hnone
  · rename_i hsome
    rw [h] at hsome
    cases hsome
    rfl

theorem codePoint?_control {c : Char} (hc : c.toNat < 0x20) (rest : List Symbol) :
    codePoint? ((Text.hexDigits 4 c.toNat).map .char ++ rest) = some (c, rest) := by
  have hhigh : isHighHalf c.toNat = false := by
    rw [isHighHalf, Bool.and_eq_false_iff, decide_eq_false_iff_not]
    omega
  have hlow : isLowHalf c.toNat = false := by
    rw [isLowHalf, Bool.and_eq_false_iff, decide_eq_false_iff_not]
    omega
  rw [codePoint?, hex4?_hexDigits (by omega)]
  simp only [hhigh, hlow, Bool.false_eq_true, if_false, Char.ofNat_toNat]

theorem readText_shortEscape {c l : Char} (hletter : l ≠ 'u') (hl : shortEscape? l = some c)
    (rest : List Symbol) :
    readText (['\\', l].map .char ++ rest) =
      (readText rest).map fun (t, r) => (.char c :: t, r) := by
  refine readText_escape ?_
  show escape? (.char l :: rest) = _
  unfold escape?
  split
  · rename_i heq
    cases heq
    exact absurd rfl hletter
  · rename_i heq
    cases heq
    rw [hl]
    rfl
  · rename_i hno
    exact absurd rfl (hno l rest)

/-- One character that was written is read back. -/
theorem readText_writtenChar (c : Char) (rest : List Symbol) :
    readText ((writtenChar c).map .char ++ rest) =
      (readText rest).map fun (t, r) => (.char c :: t, r) := by
  unfold writtenChar
  split
  · rename_i h
    rcases h with rfl | rfl
    · exact readText_shortEscape (by decide) rfl rest
    · exact readText_shortEscape (by decide) rfl rest
  rename_i hself
  rw [not_or] at hself
  split
  · rename_i h
    subst h
    exact readText_shortEscape (by decide) rfl rest
  split
  · rename_i h
    subst h
    exact readText_shortEscape (by decide) rfl rest
  split
  · rename_i h
    subst h
    exact readText_shortEscape (by decide) rfl rest
  split
  · rename_i h
    subst h
    exact readText_shortEscape (by decide) rfl rest
  split
  · rename_i h
    subst h
    exact readText_shortEscape (by decide) rfl rest
  split
  · rename_i hcontrol
    exact readText_escape (codePoint?_control hcontrol rest)
  · rename_i hcontrol
    exact readText_plain hself.1 hself.2 hcontrol rest

/-- A text that was written is read back. -/
theorem readText_writtenChars (s : List Char) (rest : List Symbol) :
    readText ((s.flatMap writtenChar).map .char ++ .char '"' :: rest) =
      some (s.map .char, rest) := by
  induction s with
  | nil => exact readText_quote rest
  | cons c s ih =>
    rw [List.flatMap_cons, List.map_append, List.append_assoc, readText_writtenChar, ih]
    rfl

theorem symbols_writtenText (s : String) (rest : List Symbol) :
    Text.symbols (writtenText s) ++ rest =
      .char '"' :: ((s.toList.flatMap writtenChar).map .char ++ .char '"' :: rest) := by
  rw [Text.symbols, writtenText, String.toList_ofList, List.cons_append, List.map_cons,
    List.map_append, List.cons_append, List.append_assoc]
  rfl

end Json
end RouteDocs
