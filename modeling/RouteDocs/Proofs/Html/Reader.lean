import Mathlib.Data.List.TakeWhile
import RouteDocs.Html.Tag
import RouteDocs.Proofs.Html.Escape

/-!
# Reading a page

A reader cuts a page into its characters and its tags. A tag runs from its
angle bracket to the next one that is not between quotes. The tags are balanced
if every closing tag closes the last one that is open, and at the end none is.
What is read is the characters, with the entities among them as the characters
that they stand for.

A fragment is page text made of escaped text, line feeds and elements. A reader
of a fragment finds its tags balanced, and reads what it shows but for the line
feeds.

Results:
* `scan_openingChars`, `scan_closing`: an opening tag is one piece, and so is a closing tag.
* `unescape_escapeChars`: text that was escaped is read back.
* `quotedAfter?_append`: what is read between quotes.
* `Fragment.isBalanced`: the tags of a fragment are balanced.
* `Fragment.readPage_eq`: what is read of a fragment.
-/
namespace RouteDocs.Html

/-! ## Pieces of a page -/

/-- A piece of a page: a character outside of tags, what stands between the brackets of a tag, or
a tag that is cut short. -/
inductive PagePiece where
  | char (c : Char)
  | tag (body : List Char)
  | cut
  deriving DecidableEq

/-- The pieces of a page. Within a tag, `inTag` is what has been read of it, last first, and
whether that ends between quotes. -/
def scan (inTag : Option (List Char × Bool)) : List Char → List PagePiece
  | [] => if inTag.isSome then [.cut] else []
  | c :: rest =>
    match inTag with
    | none => if c = '<' then scan (some ([], false)) rest else .char c :: scan none rest
    | some (held, true) => scan (some (c :: held, c ≠ '"')) rest
    | some (held, false) =>
      if c = '>' then .tag held.reverse :: scan none rest
      else if c = '<' then .cut :: scan (some ([], false)) rest
      else scan (some (c :: held, c = '"')) rest

/-- The pieces of a page. -/
def pagePieces (s : List Char) : List PagePiece :=
  scan none s

/-- A page without its tags. -/
def deleteTags (s : List Char) : List Char :=
  (pagePieces s).filterMap fun
    | .char c => some c
    | _ => none

/-- A text with its entities as the characters that they stand for. -/
def unescape : List Char → List Char
  | [] => []
  | '&' :: 'a' :: 'm' :: 'p' :: ';' :: rest => '&' :: unescape rest
  | '&' :: 'l' :: 't' :: ';' :: rest => '<' :: unescape rest
  | '&' :: 'g' :: 't' :: ';' :: rest => '>' :: unescape rest
  | '&' :: 'q' :: 'u' :: 'o' :: 't' :: ';' :: rest => '"' :: unescape rest
  | '&' :: '#' :: 'x' :: '2' :: '7' :: ';' :: rest => '\'' :: unescape rest
  | c :: rest => c :: unescape rest

def dropLineFeeds (s : List Char) : List Char :=
  s.filter (· ≠ '\n')

/-- What is read of a page: its text without tags, entities and line feeds. -/
def readPage (s : List Char) : List Char :=
  dropLineFeeds (unescape (deleteTags s))

/-! ## Balanced tags -/

inductive TagMark where
  | opening (name : List Char)
  | closing (name : List Char)

/-- The name of an element: letters and digits, at least one. -/
def isTagName (name : List Char) : Bool :=
  !name.isEmpty && name.all Char.isAlphanum

/-- What stands between the brackets of a tag, by its name; what follows a name and a space are
attributes. -/
def tagMark? : List Char → Option TagMark
  | '/' :: name => if isTagName name then some (.closing name) else none
  | body =>
    let name := body.takeWhile (· ≠ ' ')
    if isTagName name then some (.opening name) else none

/-- The tags among pieces close the elements that are open, the last one first, and all others
that they open. -/
def closesAll (opened : List (List Char)) : List PagePiece → Bool
  | [] => opened.isEmpty
  | .char _ :: rest => closesAll opened rest
  | .cut :: _ => false
  | .tag body :: rest =>
    match tagMark? body, opened with
    | some (.opening name), _ => closesAll (name :: opened) rest
    | some (.closing name), last :: before => name = last && closesAll before rest
    | _, _ => false

/-- The tags of a page are balanced and properly nested. -/
def isBalanced (s : List Char) : Bool :=
  closesAll [] (pagePieces s)

/-! ## Text -/

/-- Characters outside of tags. -/
theorem scan_text {u : List Char} (hu : '<' ∉ u) (rest : List Char) :
    scan none (u ++ rest) = u.map .char ++ scan none rest := by
  induction u with
  | nil => rfl
  | cons c u ih =>
    rw [List.mem_cons, not_or] at hu
    rw [List.cons_append, scan, if_neg (Ne.symm hu.1), ih hu.2]
    rfl

theorem deleteTags_append_text {u : List Char} (hu : '<' ∉ u) (rest : List Char) :
    deleteTags (u ++ rest) = u ++ deleteTags rest := by
  rw [deleteTags, pagePieces, scan_text hu, List.filterMap_append, List.filterMap_map]
  congr 1
  exact List.filterMap_some

theorem closesAll_text (opened : List (List Char)) (u : List Char) (ps : List PagePiece) :
    closesAll opened (u.map .char ++ ps) = closesAll opened ps := by
  induction u with
  | nil => rfl
  | cons c u ih => exact ih

theorem unescape_char {c : Char} (hc : c ≠ '&') (rest : List Char) :
    unescape (c :: rest) = c :: unescape rest := by
  rw [unescape]
  all_goals exact fun _ h _ => hc h

/-- A character that was escaped is read back. -/
theorem unescape_escapeChar (c : Char) (rest : List Char) :
    unescape (escapeChar true c ++ rest) = c :: unescape rest := by
  by_cases hc : c ∈ special
  · simp only [special, List.mem_cons, List.not_mem_nil, or_false] at hc
    rcases hc with rfl | rfl | rfl | rfl | rfl <;> rfl
  · have hamp : c ≠ '&' := by
      rintro rfl
      exact hc (by decide)
    rw [escapeChar_of_notMem hc, List.singleton_append, unescape_char hamp]

theorem unescape_escapeChars (s rest : List Char) :
    unescape (escapeChars true s ++ rest) = s ++ unescape rest := by
  induction s with
  | nil => rfl
  | cons c s ih =>
    rw [escapeChars, List.flatMap_cons, List.append_assoc, unescape_escapeChar]
    exact congrArg (c :: ·) ih

/-! ## Values between quotes -/

/-- The value between quotes after a lead at the head of a page, its entities read back. -/
def quotedAfter? (lead page : List Char) : Option (List Char) :=
  if lead <+: page then some (unescape ((page.drop lead.length).takeWhile (· ≠ '"'))) else none

theorem takeWhile_append_quote (u rest : List Char) :
    (u ++ '"' :: rest).takeWhile (· ≠ '"') = u.takeWhile (· ≠ '"') := by
  induction u with
  | nil => rfl
  | cons c u ih =>
    by_cases hc : c = '"'
    · simp [hc]
    · rw [List.cons_append, List.takeWhile_cons_of_pos (by simpa using hc), ih,
        List.takeWhile_cons_of_pos (by simpa using hc)]

/-- A value that was escaped is read back up to the quote. -/
theorem unescape_takeWhile_escapeChars (s : List Char) :
    unescape ((escapeChars true s).takeWhile (· ≠ '"')) = s := by
  have hquote : ∀ c ∈ escapeChars true s, decide (c ≠ '"') = true := by
    intro c hc
    refine decide_eq_true ?_
    rintro rfl
    exact notMem_escapeChars (by decide) (by decide) s hc
  rw [List.takeWhile_eq_self_iff.2 hquote, ← List.append_nil (escapeChars true s),
    unescape_escapeChars]
  exact List.append_nil s

theorem quotedAfter?_append (lead u rest : List Char) :
    quotedAfter? lead (lead ++ (u ++ '"' :: rest)) = some (unescape (u.takeWhile (· ≠ '"'))) := by
  rw [quotedAfter?, if_pos (List.prefix_append _ _), List.drop_left, takeWhile_append_quote]

/-! ## Tags -/

def isAttributeName (name : List Char) : Bool :=
  name.all fun c => c.isAlpha || c == '-'

/-- An attribute of a tag, after a space. -/
def attributeChars (name value : List Char) : List Char :=
  ' ' :: (name ++ '=' :: '"' :: (escapeChars true value ++ ['"']))

def attributesChars (as : List (List Char × List Char)) : List Char :=
  as.flatMap fun (name, value) => attributeChars name value

def openingChars (name : List Char) (as : List (List Char × List Char)) : List Char :=
  '<' :: (name ++ (attributesChars as ++ ['>']))

def closingChars (name : List Char) : List Char :=
  '<' :: '/' :: (name ++ ['>'])

section
variable {name : List Char} {as : List (List Char × List Char)}

/-- Characters of a tag that are not between quotes. -/
theorem scan_unquoted {u : List Char} (hu : ∀ c ∈ u, c ≠ '"' ∧ c ≠ '<' ∧ c ≠ '>')
    (held rest : List Char) :
    scan (some (held, false)) (u ++ rest) = scan (some (u.reverse ++ held, false)) rest := by
  induction u generalizing held with
  | nil => rfl
  | cons c u ih =>
    obtain ⟨⟨hquote, hlt, hgt⟩, hrest⟩ := List.forall_mem_cons.1 hu
    rw [List.cons_append, scan, if_neg hgt, if_neg hlt, decide_eq_false hquote, ih hrest,
      List.reverse_cons, List.append_assoc]
    rfl

/-- Characters of a tag that are between quotes. -/
theorem scan_quoted {u : List Char} (hu : '"' ∉ u) (held rest : List Char) :
    scan (some (held, true)) (u ++ rest) = scan (some (u.reverse ++ held, true)) rest := by
  induction u generalizing held with
  | nil => rfl
  | cons c u ih =>
    rw [List.mem_cons, not_or] at hu
    rw [List.cons_append, scan, decide_eq_true (Ne.symm hu.1), ih hu.2, List.reverse_cons,
      List.append_assoc]
    rfl

theorem plain_of_isAlphanum {c : Char} (h : c.isAlphanum = true) : c ≠ '"' ∧ c ≠ '<' ∧ c ≠ '>' := by
  refine ⟨?_, ?_, ?_⟩ <;> rintro rfl <;> exact absurd h (by decide)

theorem plain_of_isAttributeName (h : isAttributeName name = true) {c : Char} (hc : c ∈ name) :
    c ≠ '"' ∧ c ≠ '<' ∧ c ≠ '>' := by
  have hletter := List.all_eq_true.1 h c hc
  refine ⟨?_, ?_, ?_⟩ <;> rintro rfl <;> exact absurd hletter (by decide)

/-- An attribute of a tag ends outside of quotes. -/
theorem scan_attribute (h : isAttributeName name = true) (value held rest : List Char) :
    scan (some (held, false)) (attributeChars name value ++ rest) =
      scan (some ((attributeChars name value).reverse ++ held, false)) rest := by
  have hname : ∀ c ∈ ' ' :: (name ++ ['=']), c ≠ '"' ∧ c ≠ '<' ∧ c ≠ '>' := by
    intro c hc
    rcases List.mem_cons.1 hc with rfl | hc
    · decide
    · rcases List.mem_append.1 hc with hc | hc
      · exact plain_of_isAttributeName h hc
      · rw [List.mem_singleton.1 hc]
        decide
  have hsplit : attributeChars name value =
      ' ' :: (name ++ ['=']) ++ ('"' :: (escapeChars true value ++ ['"'])) := by
    rw [attributeChars, List.cons_append, List.append_assoc]
    rfl
  have hopen : ∀ held more, scan (some (held, false)) ('"' :: more) =
      scan (some ('"' :: held, true)) more := fun _ _ => rfl
  have hclose : ∀ held more, scan (some (held, true)) ('"' :: more) =
      scan (some ('"' :: held, false)) more := fun _ _ => rfl
  rw [hsplit, List.append_assoc, scan_unquoted hname, List.cons_append, hopen, List.append_assoc,
    scan_quoted (notMem_escapeChars (by decide) (by decide) value), List.singleton_append, hclose]
  congr 3
  simp only [List.reverse_append, List.reverse_cons, List.append_assoc, List.reverse_nil,
    List.nil_append, List.cons_append]

/-- The attributes of a tag end outside of quotes. -/
theorem scan_attributes (h : ∀ a ∈ as, isAttributeName a.1 = true) (held rest : List Char) :
    scan (some (held, false)) (attributesChars as ++ rest) =
      scan (some ((attributesChars as).reverse ++ held, false)) rest := by
  induction as generalizing held with
  | nil => rfl
  | cons a as ih =>
    obtain ⟨ha, hrest⟩ := List.forall_mem_cons.1 h
    have hcons : attributesChars (a :: as) = attributeChars a.1 a.2 ++ attributesChars as := rfl
    rw [hcons, List.append_assoc, scan_attribute ha, ih hrest, List.reverse_append, List.append_assoc]

theorem isAlphanum_of_isTagName (h : isTagName name = true) : ∀ c ∈ name, c.isAlphanum = true := by
  rw [isTagName, Bool.and_eq_true] at h
  exact List.all_eq_true.1 h.2

theorem scan_less (rest : List Char) : scan none ('<' :: rest) = scan (some ([], false)) rest := rfl

theorem scan_greater (held rest : List Char) :
    scan (some (held, false)) ('>' :: rest) = .tag held.reverse :: scan none rest := rfl

/-- An opening tag is one piece, also if its name is empty. -/
theorem scan_openingChars (hname : ∀ c ∈ name, c.isAlphanum = true)
    (has : ∀ a ∈ as, isAttributeName a.1 = true) (rest : List Char) :
    scan none (openingChars name as ++ rest) =
      .tag (name ++ attributesChars as) :: scan none rest := by
  have hplain : ∀ c ∈ name, c ≠ '"' ∧ c ≠ '<' ∧ c ≠ '>' := fun c hc =>
    plain_of_isAlphanum (hname c hc)
  rw [openingChars, List.cons_append, scan_less, List.append_assoc, scan_unquoted hplain,
    List.append_assoc, scan_attributes has, List.singleton_append, scan_greater]
  simp only [List.append_nil, List.reverse_append, List.reverse_reverse]

theorem scan_opening (hname : isTagName name = true) (has : ∀ a ∈ as, isAttributeName a.1 = true)
    (rest : List Char) :
    scan none (openingChars name as ++ rest) =
      .tag (name ++ attributesChars as) :: scan none rest :=
  scan_openingChars (isAlphanum_of_isTagName hname) has rest

/-- A closing tag is one piece. -/
theorem scan_closing (hname : isTagName name = true) (rest : List Char) :
    scan none (closingChars name ++ rest) = .tag ('/' :: name) :: scan none rest := by
  have hplain : ∀ c ∈ '/' :: name, c ≠ '"' ∧ c ≠ '<' ∧ c ≠ '>' :=
    List.forall_mem_cons.2 ⟨by decide, fun c hc =>
      plain_of_isAlphanum (isAlphanum_of_isTagName hname c hc)⟩
  have hsplit : closingChars name ++ rest = '<' :: ('/' :: name ++ '>' :: rest) := by
    rw [closingChars, List.cons_append, List.cons_append, List.append_assoc]
    rfl
  rw [hsplit, scan_less, scan_unquoted hplain, scan_greater, List.append_nil, List.reverse_reverse]

theorem tagMark?_opening (hname : isTagName name = true) :
    tagMark? (name ++ attributesChars as) = some (.opening name) := by
  have hall := isAlphanum_of_isTagName hname
  have hspace : ∀ c ∈ name, (decide (c ≠ ' ')) = true := by
    intro c hc
    refine decide_eq_true ?_
    rintro rfl
    exact absurd (hall _ hc) (by decide)
  have htake : (name ++ attributesChars as).takeWhile (· ≠ ' ') = name := by
    rw [List.takeWhile_append_of_pos hspace]
    cases as with
    | nil => exact List.append_nil name
    | cons a as => exact List.append_nil name
  unfold tagMark?
  split
  · rename_i rest heq
    have hne : name ≠ [] := by
      rintro rfl
      cases hname
    obtain ⟨c, more, rfl⟩ := List.exists_cons_of_ne_nil hne
    obtain ⟨rfl, -⟩ := List.cons.inj heq
    exact absurd (hall _ List.mem_cons_self) (by decide)
  · rw [htake]
    exact if_pos hname

theorem tagMark?_closing (hname : isTagName name = true) :
    tagMark? ('/' :: name) = some (.closing name) :=
  if_pos hname

end

theorem closesAll_opening {body name : List Char} (h : tagMark? body = some (.opening name))
    (opened : List (List Char)) (ps : List PagePiece) :
    closesAll opened (.tag body :: ps) = closesAll (name :: opened) ps := by
  rw [closesAll.eq_def]
  simp only [h]

theorem closesAll_closing {body name : List Char} (h : tagMark? body = some (.closing name))
    (opened : List (List Char)) (ps : List PagePiece) :
    closesAll (name :: opened) (.tag body :: ps) = closesAll opened ps := by
  rw [closesAll.eq_def]
  simp only [h, decide_true, Bool.true_and]

/-! ## Fragments -/

/-- Page text made of escaped text, line feeds and elements, with the text that it shows. -/
inductive Fragment : List Char → List Char → Prop where
  | text (s : List Char) : Fragment s (escapeChars true s)
  | lineFeed : Fragment [] ['\n']
  | append {s t h k : List Char} : Fragment s h → Fragment t k → Fragment (s ++ t) (h ++ k)
  | element {name : List Char} {as : List (List Char × List Char)} {s h : List Char}
      (hname : isTagName name = true) (has : ∀ a ∈ as, isAttributeName a.1 = true) :
      Fragment s h → Fragment s (openingChars name as ++ (h ++ closingChars name))

namespace Fragment

variable {s h : List Char}

theorem nil : Fragment [] [] := .text []

theorem after_lineFeed (hf : Fragment s h) : Fragment s ('\n' :: h) :=
  .append .lineFeed hf

theorem before_lineFeed (hf : Fragment s h) : Fragment s (h ++ ['\n']) := by
  have happend := hf.append .lineFeed
  rwa [List.append_nil] at happend

theorem closesAll_append (hf : Fragment s h) (opened : List (List Char)) (rest : List Char) :
    closesAll opened (scan none (h ++ rest)) = closesAll opened (scan none rest) := by
  induction hf generalizing opened rest with
  | text s =>
    rw [scan_text (notMem_escapeChars (by decide) (by decide) s), closesAll_text]
  | lineFeed => rfl
  | append _ _ ihh ihk => rw [List.append_assoc, ihh, ihk]
  | element hname has _ ih =>
    rw [List.append_assoc, scan_opening hname has, closesAll_opening (tagMark?_opening hname),
      List.append_assoc, ih, scan_closing hname, closesAll_closing (tagMark?_closing hname)]

/-- The tags of a fragment are balanced. -/
theorem isBalanced (hf : Fragment s h) : isBalanced h = true := by
  have hall := hf.closesAll_append [] []
  rw [List.append_nil] at hall
  exact hall

theorem deleteTags_tag {body : List Char} {u rest : List Char}
    (hu : scan none (u ++ rest) = .tag body :: scan none rest) :
    deleteTags (u ++ rest) = deleteTags rest := by
  rw [deleteTags, pagePieces, hu]
  rfl

theorem readPage_append (hf : Fragment s h) (rest : List Char) :
    readPage (h ++ rest) = dropLineFeeds s ++ readPage rest := by
  induction hf generalizing rest with
  | text s =>
    rw [readPage, deleteTags_append_text (notMem_escapeChars (by decide) (by decide) s),
      unescape_escapeChars, dropLineFeeds, List.filter_append]
    rfl
  | lineFeed => rfl
  | append _ _ ihh ihk =>
    rw [List.append_assoc, ihh, ihk, dropLineFeeds, dropLineFeeds, dropLineFeeds,
      List.filter_append, List.append_assoc]
  | element hname has _ ih =>
    have hclosing : ∀ rest, readPage (closingChars _ ++ rest) = readPage rest := fun rest => by
      rw [readPage, deleteTags_tag (scan_closing hname rest), readPage]
    rw [List.append_assoc, readPage, deleteTags_tag (scan_opening hname has _), ← readPage,
      List.append_assoc, ih, hclosing]

/-- A reader reads what a fragment shows, but for the line feeds. -/
theorem readPage_eq (hf : Fragment s h) : readPage h = dropLineFeeds s := by
  have hall := hf.readPage_append []
  rw [List.append_nil] at hall
  exact hall.trans (List.append_nil _)

end Fragment
end RouteDocs.Html
