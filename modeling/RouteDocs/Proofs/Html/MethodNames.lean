import RouteDocs.Html.Navigation
import RouteDocs.Proofs.Html.Marked
import RouteDocs.Proofs.Html.Reader
import RouteDocs.Proofs.Letter

/-!
# Methods in escaped text

The entry of a route has its first method in italics, which is looked for in
text that was escaped already. A method is found as a word, in small or in large
letters. If no method can be found within an entity, and none holds a special
character, then the tags of italics stand between whole characters of the
text: what is before the method, the method, and what is after it are each
escaped as they would be by themselves.

Results:
* `plainMethods_default`: the default methods keep clear of entities.
* `styleMethod_escapeChars`: where the italics stand.
-/
namespace RouteDocs.Html.Navigation

/-! ## Literals that do not match -/

/-- A literal differs from a text in one of its characters, also without regard to case. -/
def differs (m s : List Char) : Bool :=
  (m.zip s).any fun (p, c) => Text.foldCase p != Text.foldCase c

theorem dropFolded?_of_differs {m s : List Char} (h : differs m s = true) (rest : List Char) :
    Text.dropFolded? m (s ++ rest) = none := by
  induction m generalizing s with
  | nil => cases h
  | cons p m ih =>
    cases s with
    | nil => cases h
    | cons c s =>
      rw [differs, List.zip_cons_cons, List.any_cons, Bool.or_eq_true] at h
      rw [List.cons_append, Text.dropFolded?]
      split
      · rename_i hp
        rcases h with h | h
        · rw [bne_iff_ne] at h
          exact absurd hp h
        · exact ih h
      · rfl

/-! ## Methods and entities -/

/-- Methods that are not found within entities, and are found without entities in them. -/
structure PlainMethods (methods : List (List Char)) : Prop where
  ne_nil : ∀ m ∈ methods, m ≠ []
  plain : ∀ m ∈ methods, ∀ p ∈ m, ∀ x ∈ special, Text.foldCase p ≠ Text.foldCase x
  apart : ∀ m ∈ methods, ∀ x ∈ special, ∀ n < (escapeChar true x).length,
    differs m ((escapeChar true x).drop n) = true

theorem plainMethods_default :
    PlainMethods (methodTexts RenderConfig.default.routeMethods) :=
  ⟨by decide, by decide, by decide⟩

section
variable {methods : List (List Char)} {s : List Char}

theorem methodSize?_eq_some {before : Option Char} {n : Nat}
    (h : methodSize? methods before s = some n) :
    ∃ m ∈ methods, ∃ w rest, s = w ++ rest ∧ w.map Text.foldCase = m.map Text.foldCase ∧
      n = w.length := by
  rw [methodSize?] at h
  split at h
  · obtain ⟨m, hm, hfound⟩ := List.exists_of_findSome?_eq_some h
    obtain ⟨rest, hdrop, hsize⟩ := Option.bind_eq_some_iff.1 hfound
    obtain ⟨w, rfl, hw⟩ := Text.dropFolded?_eq_some_iff.1 hdrop
    dsimp only at hsize
    split at hsize
    · refine ⟨m, hm, w, rest, rfl, hw, ?_⟩
      rw [← Option.some.inj hsize, List.length_append, Nat.add_sub_cancel]
    · cases hsize
  · cases h

theorem methodSize?_eq_none (before : Option Char)
    (h : ∀ m ∈ methods, Text.dropFolded? m s = none) : methodSize? methods before s = none := by
  rw [methodSize?]
  split
  · refine List.findSome?_eq_none_iff.2 fun m hm => ?_
    rw [h m hm]
    rfl
  · rfl

theorem styleMethod_some {before : Option Char} {w rest : List Char}
    (h : methodSize? methods before (w ++ rest) = some w.length) :
    styleMethod methods before (w ++ rest) = "<i>".toList ++ w ++ "</i>".toList ++ rest := by
  rw [styleMethod.eq_def, h]
  dsimp only
  rw [List.take_left, List.drop_left]

theorem styleMethod_none {before : Option Char} {c : Char} {rest : List Char}
    (h : methodSize? methods before (c :: rest) = none) :
    styleMethod methods before (c :: rest) = c :: styleMethod methods (some c) rest := by
  rw [styleMethod.eq_def, h]

/-- Where no method starts, the text stays as it is. -/
theorem styleMethod_append {u : List Char} (before : Option Char)
    (h : ∀ n < u.length, ∀ m ∈ methods, differs m (u.drop n) = true) (rest : List Char) :
    ∃ before', styleMethod methods before (u ++ rest) =
      u ++ styleMethod methods before' rest := by
  induction u generalizing before with
  | nil => exact ⟨before, rfl⟩
  | cons c u ih =>
    obtain ⟨before', hrest⟩ := ih (some c) fun n hn => h (n + 1) (Nat.succ_lt_succ hn)
    have hnone : methodSize? methods before (c :: (u ++ rest)) = none :=
      methodSize?_eq_none before fun m hm =>
        dropFolded?_of_differs (h 0 (Nat.zero_lt_succ _) m hm) rest
    refine ⟨before', ?_⟩
    rw [List.cons_append, styleMethod_none hnone, hrest]
    rfl

/-- Plain characters at the head of escaped text are the first of the text. -/
theorem eq_append_of_escapeChars {w rest : List Char} (hw : ∀ c ∈ w, c ∉ special)
    (h : escapeChars true s = w ++ rest) : ∃ v, s = w ++ v ∧ escapeChars true v = rest := by
  rw [← markedHtml_of_noMarkers] at h
  have hnone : Orderly [] :=
    ⟨List.forall_mem_nil _, List.forall_mem_nil _, List.Pairwise.nil⟩
  obtain ⟨v, hv, hrest⟩ := eq_append_of_markedHtml hnone hw h
  exact ⟨v, hv, by rw [← markedHtml_of_noMarkers, hrest]⟩

/-- Page text for a text in italics; for no text, nothing. -/
def italics (w : List Char) : List Char :=
  if w = [] then [] else openingChars "i".toList [] ++ (escapeChars true w ++ closingChars "i".toList)

/-- A method at the head of escaped text is the same characters of the text. -/
theorem styleMethod_of_found (hm : PlainMethods methods) {before : Option Char} {n : Nat}
    (h : methodSize? methods before (escapeChars true s) = some n) :
    ∃ w v, s = w ++ v ∧ w ≠ [] ∧ styleMethod methods before (escapeChars true s) =
      italics w ++ escapeChars true v := by
  obtain ⟨m, hmem, w, rest, hsplit, hfold, rfl⟩ := methodSize?_eq_some h
  have hplain : ∀ x ∈ w, x ∉ special := by
    intro x hx hspecial
    have hin : Text.foldCase x ∈ m.map Text.foldCase := hfold ▸ List.mem_map_of_mem hx
    obtain ⟨p, hp, heq⟩ := List.mem_map.1 hin
    exact hm.plain m hmem p hp x hspecial heq
  have hne : w ≠ [] := by
    rintro rfl
    exact hm.ne_nil m hmem (List.map_eq_nil_iff.1 hfold.symm)
  obtain ⟨v, hv, hrest⟩ := eq_append_of_escapeChars hplain hsplit
  refine ⟨w, v, hv, hne, ?_⟩
  rw [hsplit] at h ⊢
  rw [styleMethod_some h, italics, if_neg hne, escapeChars_of_plain hplain, hrest]
  simp [openingChars, closingChars, attributesChars]

/-- In escaped text at most one method is set in italics. The text before it, the method, and the
text after it are each escaped as they would be by themselves. -/
theorem styleMethod_escapeChars (hm : PlainMethods methods) (before : Option Char) (s : List Char) :
    ∃ u w v, s = u ++ (w ++ v) ∧ styleMethod methods before (escapeChars true s) =
      escapeChars true u ++ (italics w ++ escapeChars true v) := by
  induction s generalizing before with
  | nil =>
    cases h : methodSize? methods before (escapeChars true []) with
    | none => exact ⟨[], [], [], rfl, by rw [styleMethod.eq_def, h]; rfl⟩
    | some n =>
      obtain ⟨w, v, hsplit, hne, -⟩ := styleMethod_of_found hm h
      exact absurd (List.append_eq_nil_iff.1 hsplit.symm).1 hne
  | cons c s ih =>
    have hcons : ∀ t, escapeChars true (c :: t) = escapeChar true c ++ escapeChars true t :=
      fun _ => List.flatMap_cons
    -- what is at the head and starts no method stands before the italics of the rest
    have hrest : ∀ before', styleMethod methods before (escapeChars true (c :: s)) =
        escapeChar true c ++ styleMethod methods before' (escapeChars true s) →
        ∃ u w v, c :: s = u ++ (w ++ v) ∧ styleMethod methods before (escapeChars true (c :: s)) =
          escapeChars true u ++ (italics w ++ escapeChars true v) := by
      intro before' heq
      obtain ⟨u, w, v, rfl, h⟩ := ih before'
      exact ⟨c :: u, w, v, rfl, by rw [heq, h, hcons, List.append_assoc]⟩
    by_cases hc : c ∈ special
    · obtain ⟨before', h⟩ := styleMethod_append before
        (fun n hn m hmem => hm.apart m hmem c hc n hn) (escapeChars true s)
      exact hrest before' (by rw [hcons, h])
    · cases h : methodSize? methods before (escapeChars true (c :: s)) with
      | some n =>
        obtain ⟨w, v, hsplit, -, hfound⟩ := styleMethod_of_found hm h
        exact ⟨[], w, v, hsplit, hfound⟩
      | none =>
        refine hrest (some c) ?_
        rw [hcons, escapeChar_of_notMem hc, List.singleton_append] at h ⊢
        exact styleMethod_none h

end
end RouteDocs.Html.Navigation
