import RouteDocs.Proofs.Html.Reader

/-!
# The tree of a page

A reader goes through the pieces of a page from left to right. It keeps the
elements that are open and the nodes that it has read of each of them. A tag is
split at its quotes: before each quoted value stands the name of the attribute.
Entities are read as the characters that they stand for, in values and in
text. Spaces and line feeds outside of all elements, or directly in a list or in
a list item, are layout and no text.

A text leads the reader from one state to another if it is whole pieces: then
what follows it is read from that state on.

Results:
* `attributes?_attributesChars`: the attributes of a tag are read back.
* `isBalanced_of_readTree`: a page that has a tree has balanced tags.
* `Leads.text`, `Leads.layout`, `Leads.opening`, `Leads.closing`: how text, blanks and tags lead
  the reader on.
-/
namespace RouteDocs.Html

/-! ## Entities of text -/

/-- A character of text is read back, whether or not quotes were written as entities. -/
theorem unescape_escapeChar_append (quotes : Bool) (c : Char) (rest : List Char) :
    unescape (escapeChar quotes c ++ rest) = c :: unescape rest := by
  have hsame : escapeChar quotes c = escapeChar true c ∨ escapeChar quotes c = [c] ∧ c ≠ '&' := by
    by_cases hquotes : c = '"' ∨ c = '\''
    · rcases hquotes with rfl | rfl <;> cases quotes <;> simp [escapeChar]
    · rw [not_or] at hquotes
      left
      unfold escapeChar
      split <;> simp_all
  rcases hsame with h | ⟨h, hc⟩
  · rw [h, unescape_escapeChar]
  · rw [h, List.singleton_append, unescape_char hc]

theorem unescape_escapeChars_eq (quotes : Bool) (s : List Char) :
    unescape (escapeChars quotes s) = s := by
  induction s with
  | nil => rfl
  | cons c s ih =>
    rw [escapeChars, List.flatMap_cons, unescape_escapeChar_append]
    exact congrArg (c :: ·) ih

theorem bracket_notMem_escapeChars (quotes : Bool) (s : List Char) : '<' ∉ escapeChars quotes s := by
  intro hmem
  obtain ⟨c, -, hc⟩ := List.mem_flatMap.1 hmem
  unfold escapeChar at hc
  split at hc
  case h_6 c _ hlt _ _ _ => exact hlt (List.mem_singleton.1 hc).symm
  all_goals revert hc; cases quotes <;> decide

/-! ## Attributes -/

/-- The names of attributes are names, and none is empty. -/
def AreNamed (as : List (List Char × List Char)) : Prop :=
  ∀ a ∈ as, a.1 ≠ [] ∧ isAttributeName a.1 = true

theorem areNamed_nil : AreNamed [] :=
  List.forall_mem_nil _

theorem AreNamed.isAttributeName {as : List (List Char × List Char)} (h : AreNamed as) :
    ∀ a ∈ as, isAttributeName a.1 = true :=
  fun a ha => (h a ha).2

/-- The name of an attribute in what stands before its value: a space, the name, and an equals
sign. -/
def attributeName? (lead : List Char) : Option (List Char) :=
  let name := lead.tail.dropLast
  if lead = ' ' :: (name ++ ['=']) ∧ name ≠ [] ∧ isAttributeName name = true then some name else none

/-- The attributes in the parts of a tag that was split at its quotes: in turn a name and a value,
and nothing after the last. -/
def attributesOf? : List (List Char) → Option (List (List Char × List Char))
  | [last] => if last = [] then some [] else none
  | lead :: value :: rest => do
    let name ← attributeName? lead
    let more ← attributesOf? rest
    return (name, unescape value) :: more
  | [] => none

/-- The attributes in a tag, after its name. -/
def attributes? (s : List Char) : Option (List (List Char × List Char)) :=
  attributesOf? (s.splitOn '"')

theorem attributeName?_lead {name : List Char} (hne : name ≠ []) (h : isAttributeName name = true) :
    attributeName? (' ' :: (name ++ ['='])) = some name := by
  have hname : (' ' :: (name ++ ['='])).tail.dropLast = name := List.dropLast_concat
  rw [attributeName?, hname]
  exact if_pos ⟨rfl, hne, h⟩

/-- An attribute is the two parts before its two quotes. -/
theorem splitOn_attributeChars {name : List Char} (h : isAttributeName name = true)
    (value rest : List Char) :
    (attributeChars name value ++ rest).splitOn '"' =
      (' ' :: (name ++ ['='])) :: escapeChars true value :: rest.splitOn '"' := by
  have hlead : ∀ c ∈ ' ' :: (name ++ ['=']), (c == '"') = false := by
    intro c hc
    rw [beq_eq_false_iff_ne]
    rcases List.mem_cons.1 hc with rfl | hc
    · decide
    · rcases List.mem_append.1 hc with hc | hc
      · exact (plain_of_isAttributeName h hc).1
      · rw [List.mem_singleton.1 hc]
        decide
  have hvalue : ∀ c ∈ escapeChars true value, (c == '"') = false := by
    intro c hc
    rw [beq_eq_false_iff_ne]
    rintro rfl
    exact notMem_escapeChars (by decide) (by decide) value hc
  have hsplit : attributeChars name value ++ rest =
      (' ' :: (name ++ ['='])) ++ '"' :: (escapeChars true value ++ '"' :: rest) := by
    simp [attributeChars]
  rw [hsplit, List.splitOn, List.splitOnP_append_cons_of_forall_mem hlead _ rfl,
    List.splitOnP_append_cons_of_forall_mem hvalue _ rfl]
  rfl

/-- The attributes of a tag are read back. -/
theorem attributes?_attributesChars {as : List (List Char × List Char)} (h : AreNamed as) :
    attributes? (attributesChars as) = some as := by
  induction as with
  | nil => rfl
  | cons a as ih =>
    obtain ⟨⟨hne, hname⟩, hrest⟩ := List.forall_mem_cons.1 h
    have hcons : attributesChars (a :: as) = attributeChars a.1 a.2 ++ attributesChars as := rfl
    have hmore : attributesOf? ((attributesChars as).splitOn '"') = some as := ih hrest
    rw [attributes?, hcons, splitOn_attributeChars hname, attributesOf?,
      attributeName?_lead hne hname, hmore, unescape_escapeChars_eq]
    rfl

/-! ## The reader -/

/-- A node of a page: text, or an element. -/
inductive PageNode where
  | text (s : List Char)
  | element (name : List Char) (attributes : List (List Char × List Char))
      (children : List PageNode)

namespace PageNode

mutual

/-- The text beneath a node, in the order of the page. -/
def visible : PageNode → List Char
  | .text s => s
  | .element _ _ children => visibleAll children

/-- The text beneath nodes, in the order of the page. -/
def visibleAll : List PageNode → List Char
  | [] => []
  | n :: rest => n.visible ++ visibleAll rest

end

mutual

def countClass (name : List Char) : PageNode → Nat
  | .text _ => 0
  | .element _ as children =>
    (if as.contains ("class".toList, name) then 1 else 0) + countClassAll name children

def countClassAll (name : List Char) : List PageNode → Nat
  | [] => 0
  | n :: rest => n.countClass name + countClassAll name rest

end

theorem visibleAll_append (ns ms : List PageNode) :
    visibleAll (ns ++ ms) = visibleAll ns ++ visibleAll ms := by
  induction ns with
  | nil => rfl
  | cons n rest ih => rw [List.cons_append, visibleAll, visibleAll, ih, List.append_assoc]

theorem countClassAll_append (name : List Char) (ns ms : List PageNode) :
    countClassAll name (ns ++ ms) = countClassAll name ns + countClassAll name ms := by
  induction ns with
  | nil => rw [List.nil_append, countClassAll, Nat.zero_add]
  | cons n rest ih => rw [List.cons_append, countClassAll, countClassAll, ih, Nat.add_assoc]

theorem countClassAll_eq_zero {name : List Char} {ns : List PageNode}
    (h : ∀ n ∈ ns, n.countClass name = 0) : countClassAll name ns = 0 := by
  induction ns with
  | nil => rfl
  | cons n rest ih =>
    obtain ⟨hn, hrest⟩ := List.forall_mem_cons.1 h
    rw [countClassAll, hn, ih hrest]

end PageNode

/-- A tag that opens an element with attributes, or closes one. -/
inductive PageTag where
  | opening (name : List Char) (attributes : List (List Char × List Char))
  | closing (name : List Char)

/-- What stands between the brackets of a tag, by its name and attributes. -/
def pageTag? (body : List Char) : Option PageTag :=
  match tagMark? body with
  | some (.opening name) => (attributes? (body.drop name.length)).map (.opening name)
  | some (.closing name) => some (.closing name)
  | none => none

/-- The elements between whose tags blanks are layout. -/
def isListName (name : List Char) : Bool :=
  name == "ul".toList || name == "li".toList

/-- An element that is open, with what stands before it in the one around it, last first. -/
structure OpenElement where
  name : List Char
  attributes : List (List Char × List Char)
  before : List PageNode

/-- What a reader keeps: the open elements, innermost first; the nodes of the innermost, last first;
and the characters of a text that may go on, last first. -/
structure PageReader where
  opened : List OpenElement
  nodes : List PageNode
  held : List Char

namespace PageReader

/-- Before all pieces. -/
def start : PageReader := ⟨[], [], []⟩

/-- Whether blanks are layout where the reader is. -/
def inLayout (r : PageReader) : Bool :=
  r.opened.head?.all fun e => isListName e.name

/-- The nodes of the innermost open element, with the text that is held. -/
def settled (r : PageReader) : List PageNode :=
  if r.held.isEmpty then r.nodes else .text (unescape r.held.reverse) :: r.nodes

/-- Inside a new element. -/
def enter (r : PageReader) (name : List Char) (as : List (List Char × List Char)) : PageReader :=
  ⟨⟨name, as, r.settled⟩ :: r.opened, [], []⟩

def addElement (r : PageReader) (name : List Char) (as : List (List Char × List Char))
    (children : List PageNode) : PageReader :=
  ⟨r.opened, .element name as children :: r.settled, []⟩

def step (r : PageReader) : PagePiece → Option PageReader
  | .char c =>
    if r.inLayout && (c == ' ' || c == '\n') then some r else some { r with held := c :: r.held }
  | .cut => none
  | .tag body =>
    match pageTag? body, r.opened with
    | some (.opening name as), _ => some (r.enter name as)
    | some (.closing name), last :: before =>
      if name = last.name then
        some ⟨before, .element name last.attributes r.settled.reverse :: last.before, []⟩
      else none
    | _, _ => none

def read? (r : PageReader) (s : List Char) : Option PageReader :=
  (pagePieces s).foldlM step r

/-- How many lists and list items are open. -/
def listDepth (r : PageReader) : Nat :=
  r.opened.countP fun e => isListName e.name

end PageReader

/-- The nodes of a page in which every element is closed. -/
def readTree (s : List Char) : Option (List PageNode) := do
  let r ← PageReader.start.read? s
  if r.opened.isEmpty then some r.settled.reverse else none

/-! ## Balanced tags -/

namespace PageReader

theorem tagMark?_of_step {body : List Char} {r r' : PageReader}
    (h : r.step (.tag body) = some r') :
    (∃ name as, tagMark? body = some (.opening name) ∧ r' = r.enter name as) ∨
      ∃ last before, tagMark? body = some (.closing last.name) ∧ r.opened = last :: before ∧
        r'.opened = before := by
  simp only [step, pageTag?] at h
  cases hmark : tagMark? body with
  | none =>
    rw [hmark] at h
    cases h
  | some mark =>
    rw [hmark] at h
    cases mark with
    | opening name =>
      cases has : attributes? (body.drop name.length) with
      | none =>
        simp only [has, Option.map_none] at h
        cases h
      | some as =>
        simp only [has, Option.map_some, Option.some.injEq] at h
        exact .inl ⟨name, as, rfl, h.symm⟩
    | closing name =>
      cases hopened : r.opened with
      | nil =>
        simp only [hopened] at h
        cases h
      | cons last before =>
        simp only [hopened] at h
        split at h
        · rename_i hname
          obtain rfl := Option.some.inj h
          exact .inr ⟨last, before, by rw [hname], rfl, rfl⟩
        · cases h

/-- Where a reader gets through to the end of all elements, the tags close each other. -/
theorem closesAll_of_foldlM {ps : List PagePiece} {r r' : PageReader}
    (h : ps.foldlM step r = some r') (hend : r'.opened = []) :
    closesAll (r.opened.map (·.name)) ps = true := by
  induction ps generalizing r with
  | nil =>
    obtain rfl := Option.some.inj h
    rw [hend]
    rfl
  | cons p ps ih =>
    rw [List.foldlM_cons] at h
    obtain ⟨r₁, hstep, hrest⟩ := Option.bind_eq_some_iff.1 h
    have hall := ih hrest
    cases p with
    | char c =>
      rw [step] at hstep
      split at hstep <;> (obtain rfl := Option.some.inj hstep; exact hall)
    | cut => cases hstep
    | tag body =>
      rw [closesAll.eq_def]
      rcases tagMark?_of_step hstep with ⟨name, as, hmark, rfl⟩ | ⟨last, before, hmark, hopened, rfl⟩
      · simp only [hmark]
        exact hall
      · simp only [hmark, hopened, List.map_cons, decide_true, Bool.true_and]
        exact hall

end PageReader

/-- A page that has a tree has balanced tags. -/
theorem isBalanced_of_readTree {s : List Char} {ns : List PageNode} (h : readTree s = some ns) :
    isBalanced s = true := by
  obtain ⟨r, hread, hend⟩ := Option.bind_eq_some_iff.1 h
  split at hend
  · rename_i hopened
    exact PageReader.closesAll_of_foldlM hread (List.isEmpty_iff.1 hopened)
  · cases hend

/-! ## Whole pieces -/

/-- A text is whole pieces, and leads a reader from one state to another. -/
structure Leads (r : PageReader) (s : List Char) (r' : PageReader) : Prop where
  whole : ∀ rest, pagePieces (s ++ rest) = pagePieces s ++ pagePieces rest
  read : r.read? s = some r'

namespace Leads

variable {r r' r'' : PageReader} {s t : List Char}

theorem nil (r : PageReader) : Leads r [] r :=
  ⟨fun _ => rfl, rfl⟩

theorem append (hs : Leads r s r') (ht : Leads r' t r'') : Leads r (s ++ t) r'' := by
  refine ⟨fun rest => ?_, ?_⟩
  · rw [List.append_assoc, hs.whole, ht.whole, hs.whole, List.append_assoc]
  · rw [PageReader.read?, hs.whole, List.foldlM_append]
    exact Option.bind_eq_some_iff.2 ⟨r', hs.read, ht.read⟩

theorem of_tag {body : List Char} (hscan : ∀ rest, scan none (s ++ rest) = .tag body :: scan none rest)
    (hstep : r.step (.tag body) = some r') : Leads r s r' := by
  have hpieces : pagePieces s = [.tag body] := by
    rw [← List.append_nil s]
    exact hscan []
  refine ⟨fun rest => ?_, ?_⟩
  · rw [hpieces]
    exact hscan rest
  · rw [PageReader.read?, hpieces, List.foldlM_cons, hstep]
    rfl

theorem pagePieces_text {u : List Char} (hu : '<' ∉ u) : pagePieces u = u.map .char := by
  have hscan := scan_text hu []
  rw [List.append_nil] at hscan
  exact hscan.trans (List.append_nil _)

theorem whole_text {u : List Char} (hu : '<' ∉ u) (rest : List Char) :
    pagePieces (u ++ rest) = pagePieces u ++ pagePieces rest := by
  rw [pagePieces_text hu]
  exact scan_text hu rest

/-- Text in an element in which blanks are text. -/
theorem text {u : List Char} (hu : '<' ∉ u) (hlayout : r.inLayout = false) :
    Leads r u { r with held := u.reverse ++ r.held } := by
  refine ⟨whole_text hu, ?_⟩
  rw [PageReader.read?, pagePieces_text hu]
  induction u generalizing r with
  | nil => rfl
  | cons c u ih =>
    rw [List.mem_cons, not_or] at hu
    have hstep : r.step (.char c) = some { r with held := c :: r.held } := by
      rw [PageReader.step, hlayout, Bool.false_and, if_neg Bool.false_ne_true]
    have hrest := ih (r := { r with held := c :: r.held }) hu.2 hlayout
    rw [List.map_cons, List.foldlM_cons, hstep, List.reverse_cons, List.append_assoc]
    exact hrest

/-- Blanks where they are layout. -/
theorem layout {u : List Char} (hu : ∀ c ∈ u, c = ' ' ∨ c = '\n') (hlayout : r.inLayout = true) :
    Leads r u r := by
  have hbracket : '<' ∉ u := fun hmem => by
    rcases hu _ hmem with h | h <;> exact absurd h (by decide)
  refine ⟨whole_text hbracket, ?_⟩
  rw [PageReader.read?, pagePieces_text hbracket]
  clear hbracket
  induction u with
  | nil => rfl
  | cons c u ih =>
    obtain ⟨hc, hrest⟩ := List.forall_mem_cons.1 hu
    have hblank : (c == ' ' || c == '\n') = true := by
      rcases hc with rfl | rfl <;> rfl
    have hstep : r.step (.char c) = some r := by
      rw [PageReader.step, hlayout, hblank]
      rfl
    rw [List.map_cons, List.foldlM_cons, hstep]
    exact ih hrest

section
variable {name : List Char} {as : List (List Char × List Char)}

/-- An opening tag. -/
theorem opening (hname : isTagName name = true) (has : AreNamed as) (r : PageReader) :
    Leads r (openingChars name as) (r.enter name as) := by
  refine of_tag (scan_opening hname has.isAttributeName) ?_
  have htag : pageTag? (name ++ attributesChars as) = some (.opening name as) := by
    simp only [pageTag?, tagMark?_opening hname, List.drop_left, attributes?_attributesChars has,
      Option.map_some]
  simp only [PageReader.step, htag]

/-- The closing tag of the innermost element. -/
theorem closing (hname : isTagName name = true) (opened : List OpenElement)
    (before nodes : List PageNode) (held : List Char) :
    Leads ⟨⟨name, as, before⟩ :: opened, nodes, held⟩ (closingChars name)
      ⟨opened, .element name as (PageReader.mk opened nodes held).settled.reverse :: before, []⟩ := by
  refine of_tag (scan_closing hname) ?_
  have htag : pageTag? ('/' :: name) = some (.closing name) := by
    simp only [pageTag?, tagMark?_closing hname]
  simp only [PageReader.step, htag, if_true]
  rfl

end
end Leads
end RouteDocs.Html
