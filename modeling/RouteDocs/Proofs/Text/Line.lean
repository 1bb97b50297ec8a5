import RouteDocs.Text.Line

/-!
# Lines between boundaries

A text written line after line, with any boundary between two lines, has these
lines. Only a carriage return before an empty line and a line feed is one
boundary where two were written, and the empty line last in a text is none. So
the lines that are not empty are read back in any case.

Results:
* `filterMap_lines`: what is read off the lines of a text, if nothing is read off empty ones.
-/
namespace RouteDocs.Text

/-- A boundary between lines: a character that ends lines, or a carriage return with a line feed. -/
inductive IsBoundary : List Char → Prop where
  | single {c : Char} (h : isLineEnd c = true) : IsBoundary [c]
  | returnFeed : IsBoundary ['\r', '\n']

/-- A text that is written line after line, with boundaries between the lines. -/
inductive Separated : List Char → List (List Char) → Prop where
  | last {line : List Char} (h : ∀ c ∈ line, isLineEnd c = false) : Separated line [line]
  | more {line boundary text : List Char} {rest : List (List Char)}
      (h : ∀ c ∈ line, isLineEnd c = false) (hboundary : IsBoundary boundary)
      (htext : Separated text rest) : Separated (line ++ (boundary ++ text)) (line :: rest)

theorem linesFrom_append {line : List Char} (h : ∀ c ∈ line, isLineEnd c = false)
    (current : List Char) (afterReturn : Bool) (rest : List Char) :
    linesFrom current afterReturn (line ++ rest) =
      linesFrom (current ++ line) (afterReturn && line.isEmpty) rest := by
  induction line generalizing current afterReturn with
  | nil => simp
  | cons c line ih =>
    rw [List.forall_mem_cons] at h
    have hfeed : (c == '\n') = false := by
      rw [beq_eq_false_iff_ne]
      rintro rfl
      cases h.1
    rw [List.cons_append, linesFrom, hfeed, Bool.and_false, if_neg Bool.false_ne_true, h.1,
      if_neg Bool.false_ne_true, ih h.2]
    simp

theorem linesFrom_boundary {c : Char} (hc : isLineEnd c = true) {afterReturn : Bool}
    (h : (afterReturn && c == '\n') = false) (current rest : List Char) :
    linesFrom current afterReturn (c :: rest) = current :: linesFrom [] (c == '\r') rest := by
  rw [linesFrom, h, if_neg Bool.false_ne_true, if_pos hc]

theorem linesFrom_feed (rest : List Char) :
    linesFrom [] true ('\n' :: rest) = linesFrom [] false rest :=
  rfl

variable {β : Type} {f : List Char → Option β}

/-- What is read off the lines of a text that has been written line after line, if nothing is read
off empty lines. The text may follow a carriage return. -/
theorem filterMap_linesFrom (hempty : f [] = none) {s : List Char} {ls : List (List Char)}
    (h : Separated s ls) (afterReturn : Bool) :
    (linesFrom [] afterReturn s).filterMap f = ls.filterMap f := by
  induction h generalizing afterReturn with
  | @last line hline =>
    have hread := linesFrom_append hline [] afterReturn []
    rw [List.append_nil, List.nil_append] at hread
    rw [hread, linesFrom]
    cases line with
    | nil => simp [hempty]
    | cons c line => rfl
  | @more line boundary text rest hline hboundary _ ih =>
    rw [linesFrom_append hline, List.nil_append, List.filterMap_cons]
    cases hboundary with
    | returnFeed =>
      have hreturn : (afterReturn && line.isEmpty && '\r' == '\n') = false := Bool.and_false _
      have hread : linesFrom [] ('\r' == '\r') (['\n'] ++ text) = linesFrom [] false text := rfl
      rw [List.cons_append, linesFrom_boundary (by decide) hreturn, hread, List.filterMap_cons, ih]
    | @single c hc =>
      cases hjoined : (afterReturn && line.isEmpty) && c == '\n' with
      | false =>
        rw [List.singleton_append, linesFrom_boundary hc hjoined, List.filterMap_cons, ih]
      | true =>
        -- a line feed behind a carriage return, with an empty line between the two
        obtain ⟨hafter, rfl⟩ : (afterReturn && line.isEmpty) = true ∧ c = '\n' := by
          simpa only [Bool.and_eq_true, beq_iff_eq] using hjoined
        obtain ⟨-, rfl⟩ : afterReturn = true ∧ line = [] := by
          simpa only [Bool.and_eq_true, List.isEmpty_iff] using hafter
        rw [hafter, List.singleton_append, linesFrom_feed, hempty]
        exact ih false

theorem filterMap_lines (hempty : f [] = none) {s : List Char} {ls : List (List Char)}
    (h : Separated s ls) : (lines s).filterMap f = ls.filterMap f :=
  filterMap_linesFrom hempty h false

end RouteDocs.Text
