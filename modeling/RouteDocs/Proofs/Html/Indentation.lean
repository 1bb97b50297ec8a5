import RouteDocs.Html.IndentedLines
import RouteDocs.Proofs.Html.PageTree

/-!
# Indentation in step with a reader

Indented lines count the lists that are open by looking for their tags, line by
line. A reader knows the open elements themselves. A text takes the two in step if
the count changes by as many lists as the reader enters or leaves. Text that was
escaped does so, whatever it says, and so do tags. So the depth at which
a line is written is the number of lists that a reader of the lines before it
finds open, or of those open after it where they are fewer.

Results:
* `lineChange_text`, `lineChange_opening`, `lineChange_closing`: what text and tags
  add to the count.
* `InStep.append`, `InStep.element`: what goes in step, put together.
* `LeadLines.text_add`: the written lines lead a reader to where the lines themselves do.
* `LeadLines.isIndented`: every line is indented by the lists that are open.
-/
namespace RouteDocs.Html

/-! ## The count of a line -/

theorem tagChange_of_ne {c : Char} (hc : c ≠ '<') (rest : List Char) : tagChange (c :: rest) = 0 := by
  unfold tagChange
  split
  · rename_i heq
    exact absurd (List.cons.inj heq).1 hc
  · rename_i heq
    exact absurd (List.cons.inj heq).1 hc
  · rfl

/-- Text without brackets does not change the count. -/
theorem lineChange_text {u : List Char} (hu : '<' ∉ u) (rest : List Char) :
    lineChange (u ++ rest) = lineChange rest := by
  induction u with
  | nil => rfl
  | cons c u ih =>
    rw [List.mem_cons, not_or] at hu
    rw [List.cons_append, lineChange, tagChange_of_ne (Ne.symm hu.1), ih hu.2, Int.zero_add]

/-- The names of the elements that lists of links are made of. -/
def linkListNames : List (List Char) :=
  ["ul".toList, "li".toList, "a".toList, "i".toList]

/-- By how much an element deepens what is in it. -/
def listStep (name : List Char) : Nat :=
  if isListName name then 1 else 0

section
variable {name : List Char}

theorem mem_ul : "ul".toList ∈ linkListNames := by decide

theorem mem_li : "li".toList ∈ linkListNames := by decide

theorem mem_a : "a".toList ∈ linkListNames := by decide

theorem mem_i : "i".toList ∈ linkListNames := by decide

theorem isTagName_of_mem (hname : name ∈ linkListNames) : isTagName name = true := by
  revert name
  decide

theorem afterListName?_name (hname : name ∈ linkListNames) {c : Char} (hc : c = ' ' ∨ c = '>')
    (rest : List Char) : (afterListName? (name ++ c :: rest)).isSome = isListName name := by
  have hfold : Text.foldCase 'u' ≠ Text.foldCase 'l' ∧ Text.foldCase 'l' ≠ Text.foldCase 'a' ∧
      Text.foldCase 'u' ≠ Text.foldCase 'a' ∧ Text.foldCase 'u' ≠ Text.foldCase 'i' ∧
      Text.foldCase 'l' ≠ Text.foldCase 'i' := by decide
  obtain ⟨hul, hla, hua, hui, hli⟩ := hfold
  have hword : Text.isWord c = false := by
    rcases hc with rfl | rfl <;> decide
  simp only [linkListNames, List.mem_cons, List.not_mem_nil, or_false] at hname
  rcases hname with rfl | rfl | rfl | rfl <;>
    simp [afterListName?, Text.dropFolded?, hul, hla, hua, hui, hli, Text.isWordAt, hword] <;> decide

theorem bracket_notMem_tag (hname : name ∈ linkListNames) {as : List (List Char × List Char)}
    (has : ∀ a ∈ as, isAttributeName a.1 = true) : '<' ∉ name ++ attributesChars as := by
  have hattribute : ∀ a ∈ as, '<' ∉ attributeChars a.1 a.2 := by
    intro a ha hmem
    rw [attributeChars, List.mem_cons, List.mem_append, List.mem_cons, List.mem_cons,
      List.mem_append, List.mem_singleton] at hmem
    rcases hmem with h | h | h | h | h | h
    · exact absurd h (by decide)
    · exact (plain_of_isAttributeName (has a ha) h).2.1 rfl
    · exact absurd h (by decide)
    · exact absurd h (by decide)
    · exact notMem_escapeChars (by decide) (by decide) a.2 h
    · exact absurd h (by decide)
  intro hmem
  rcases List.mem_append.1 hmem with h | h
  · exact (plain_of_isAlphanum
      (isAlphanum_of_isTagName (isTagName_of_mem hname) _ h)).2.1 rfl
  · obtain ⟨a, ha, hin⟩ := List.mem_flatMap.1 h
    exact hattribute a ha hin

/-- The tag of a list that is opened adds one. -/
theorem lineChange_opening (hname : name ∈ linkListNames) {as : List (List Char × List Char)}
    (has : ∀ a ∈ as, isAttributeName a.1 = true) (rest : List Char) :
    lineChange (openingChars name as ++ rest) = listStep name + lineChange rest := by
  obtain ⟨c, more, hc, hafter⟩ : ∃ c more, (c = ' ' ∨ c = '>') ∧
      attributesChars as ++ '>' :: rest = c :: more := by
    cases as with
    | nil => exact ⟨'>', rest, .inr rfl, rfl⟩
    | cons a as => exact ⟨' ', _, .inl rfl, rfl⟩
  have htag : tagChange ('<' :: (name ++ c :: more)) = listStep name := by
    have hslash : tagChange ('<' :: (name ++ c :: more)) =
        if (afterListName? (name ++ c :: more)).isSome then 1 else 0 := by
      simp only [linkListNames, List.mem_cons, List.not_mem_nil, or_false] at hname
      rcases hname with rfl | rfl | rfl | rfl <;> rfl
    rw [hslash, afterListName?_name hname hc, listStep]
    split <;> rfl
  have hinside : '<' ∉ name ++ attributesChars as ++ ['>'] := by
    rw [List.mem_append, not_or]
    exact ⟨bracket_notMem_tag hname has, by decide⟩
  have hsplit : openingChars name as ++ rest =
      '<' :: (name ++ attributesChars as ++ ['>'] ++ rest) := by
    simp [openingChars]
  have hhead : name ++ attributesChars as ++ ['>'] ++ rest = name ++ c :: more := by
    rw [← hafter]
    simp
  rw [hsplit, lineChange, lineChange_text hinside, hhead, htag]

/-- The tag of a list that is closed takes one away. -/
theorem lineChange_closing (hname : name ∈ linkListNames) (rest : List Char) :
    lineChange (closingChars name ++ rest) = -listStep name + lineChange rest := by
  have htag : tagChange ('<' :: '/' :: (name ++ '>' :: rest)) = -listStep name := by
    rw [tagChange, afterListName?_name hname (.inr rfl), listStep]
    split <;> rfl
  have hinside : '<' ∉ '/' :: (name ++ ['>']) := by
    have hname := bracket_notMem_tag hname (List.forall_mem_nil _)
    rw [attributesChars, List.flatMap_nil, List.append_nil] at hname
    rw [List.mem_cons, List.mem_append, not_or, not_or]
    exact ⟨by decide, hname, by decide⟩
  have hsplit : closingChars name ++ rest = '<' :: ('/' :: (name ++ ['>']) ++ rest) := by
    simp [closingChars]
  have hhead : '<' :: ('/' :: (name ++ ['>']) ++ rest) = '<' :: '/' :: (name ++ '>' :: rest) := by
    simp
  rw [hsplit, lineChange, lineChange_text hinside, hhead, htag]

end

/-! ## In step -/

/-- A text leads a reader from one state to another, and the count by as many lists as that opens
or closes. -/
structure InStep (r : PageReader) (s : List Char) (r' : PageReader) : Prop extends Leads r s r' where
  change : ∀ rest, lineChange (s ++ rest) = r'.listDepth - r.listDepth + lineChange rest

namespace InStep

variable {r r' r'' : PageReader} {s t : List Char}

theorem append (hs : InStep r s r') (ht : InStep r' t r'') : InStep r (s ++ t) r'' := by
  refine ⟨hs.toLeads.append ht.toLeads, fun rest => ?_⟩
  rw [List.append_assoc, hs.change, ht.change]
  omega

theorem text {u : List Char} (hu : '<' ∉ u) (hlayout : r.inLayout = false) :
    InStep r u { r with held := u.reverse ++ r.held } := by
  refine ⟨.text hu hlayout, fun rest => ?_⟩
  rw [lineChange_text hu, PageReader.listDepth, PageReader.listDepth, Int.sub_self, Int.zero_add]

section
variable {name : List Char} {as : List (List Char × List Char)}

/-- Inside an element that is open, there are as many lists as around it, and it. -/
theorem listDepth_cons {r r' : PageReader} {before : List PageNode}
    (h : r.opened = ⟨name, as, before⟩ :: r'.opened) :
    r.listDepth = r'.listDepth + listStep name := by
  rw [PageReader.listDepth, h]
  exact List.countP_cons

theorem opening (hname : name ∈ linkListNames) (has : AreNamed as) (r : PageReader) :
    InStep r (openingChars name as) (r.enter name as) := by
  refine ⟨.opening (isTagName_of_mem hname) has r, fun rest => ?_⟩
  have hdepth : (r.enter name as).listDepth = r.listDepth + listStep name := listDepth_cons rfl
  rw [lineChange_opening hname has.isAttributeName, hdepth]
  omega

theorem closing (hname : name ∈ linkListNames) (opened : List OpenElement)
    (before nodes : List PageNode) (held : List Char) :
    InStep ⟨⟨name, as, before⟩ :: opened, nodes, held⟩ (closingChars name)
      ⟨opened, .element name as (PageReader.mk opened nodes held).settled.reverse :: before, []⟩ := by
  refine ⟨.closing (isTagName_of_mem hname) opened before nodes held, fun rest => ?_⟩
  have hdepth : (PageReader.mk (⟨name, as, before⟩ :: opened) nodes held).listDepth =
      (PageReader.mk opened (.element name as
        (PageReader.mk opened nodes held).settled.reverse :: before) []).listDepth +
        listStep name := listDepth_cons rfl
  rw [lineChange_closing hname, hdepth]
  omega

theorem closing_children (hname : name ∈ linkListNames) (as : List (List Char × List Char))
    (opened : List OpenElement) (before children : List PageNode) :
    InStep ⟨⟨name, as, before⟩ :: opened, children.reverse, []⟩ (closingChars name)
      ⟨opened, .element name as children :: before, []⟩ := by
  have hclosing : InStep ⟨⟨name, as, before⟩ :: opened, children.reverse, []⟩ (closingChars name) _ :=
    closing hname opened before children.reverse []
  have hchildren : (PageReader.mk opened children.reverse []).settled.reverse = children :=
    List.reverse_reverse children
  rwa [hchildren] at hclosing

/-- An element, by what is read between its tags. -/
theorem element (hname : name ∈ linkListNames) (has : AreNamed as) {nodes : List PageNode}
    {held : List Char}
    (hinner : InStep (r.enter name as) s ⟨⟨name, as, r.settled⟩ :: r.opened, nodes, held⟩) :
    InStep r (openingChars name as ++ (s ++ closingChars name))
      (r.addElement name as (PageReader.mk r.opened nodes held).settled.reverse) :=
  (opening hname has r).append (hinner.append (closing hname r.opened r.settled nodes held))

end

/-- A line in step is written at the lists that are open before it or after it, whichever are
fewer. -/
theorem addLine_eq {line : String} (h : InStep r line.toList r') {ls : IndentedLines}
    (hdepth : ls.depth = r.listDepth) :
    ls.addLine line = ⟨r'.listDepth, ls.written ++
      [IndentedLines.indented (min r.listDepth r'.listDepth) line]⟩ := by
  have hchange := h.change []
  rw [List.append_nil, lineChange, Int.add_zero] at hchange
  have hafter : (ls.depth + lineChange line.toList).toNat = r'.listDepth := by
    rw [hchange, hdepth]
    omega
  rw [IndentedLines.addLine, hafter, hdepth]

end InStep

/-! ## Lines -/

/-- Lines that lead a reader from one state to another in step with the count, with layout between
one line and the next. -/
inductive LeadLines : PageReader → List String → PageReader → Prop where
  | nil (r : PageReader) : LeadLines r [] r
  | cons {r r' r'' : PageReader} {line : String} {lines : List String}
      (hline : InStep r line.toList r') (hlayout : r'.inLayout = true)
      (hrest : LeadLines r' lines r'') : LeadLines r (line :: lines) r''

/-- The lists and list items that a reader finds open at the end of a text. -/
def openLists? (s : String) : Option Nat :=
  (PageReader.start.read? s.toList).map PageReader.listDepth

/-- Every line is indented by the lists that are open before it. If it closes more than it opens,
these are the ones open after it. -/
def IsIndented (lines : List String) : Prop :=
  ∀ before line after, lines = before ++ line :: after →
    ∃ m n, openLists? (IndentedLines.empty.add before).text = some m ∧
      openLists? (IndentedLines.empty.add (before ++ [line])).text = some n ∧
      (IndentedLines.empty.add (before ++ [line])).written =
        (IndentedLines.empty.add before).written ++
          [IndentedLines.indented (if n < m then n else m) line]

namespace LeadLines

variable {r r' r'' : PageReader} {line : String} {lines more : List String}

theorem single (hline : InStep r line.toList r') (hlayout : r'.inLayout = true) :
    LeadLines r [line] r' :=
  .cons hline hlayout (.nil r')

theorem append (h : LeadLines r lines r') (hmore : LeadLines r' more r'') :
    LeadLines r (lines ++ more) r'' := by
  induction h with
  | nil r => exact hmore
  | cons hline hlayout _ ih => exact .cons hline hlayout (ih hmore)

theorem exists_of_append (h : LeadLines r (lines ++ more) r'') :
    ∃ r', LeadLines r lines r' ∧ LeadLines r' more r'' := by
  induction lines generalizing r with
  | nil => exact ⟨r, .nil r, h⟩
  | cons line lines ih =>
    obtain _ | ⟨hline, hlayout, hrest⟩ := h
    obtain ⟨r', hlines, hmore⟩ := ih hrest
    exact ⟨r', .cons hline hlayout hlines, hmore⟩

theorem leads_indented (hline : InStep r line.toList r') (hr : r.inLayout = true)
    (hr' : r'.inLayout = true) (depth : Nat) :
    Leads r (IndentedLines.indented depth line ++ "\n").toList r' := by
  have hspaces : ∀ c ∈ List.replicate (2 * depth) ' ', c = ' ' ∨ c = '\n' :=
    fun c hc => .inl (List.eq_of_mem_replicate hc)
  have hlineFeed : ∀ c ∈ ['\n'], c = ' ' ∨ c = '\n' :=
    fun c hc => .inr (List.mem_singleton.1 hc)
  rw [IndentedLines.indented, String.toList_append, String.toList_append, String.toList_ofList]
  exact ((Leads.layout hspaces hr).append hline.toLeads).append (Leads.layout hlineFeed hr')

theorem depth_add (h : LeadLines r lines r') {ls : IndentedLines} (hdepth : ls.depth = r.listDepth) :
    (ls.add lines).depth = r'.listDepth := by
  induction h generalizing ls with
  | nil r => exact hdepth
  | cons hline _ _ ih =>
    rw [IndentedLines.add, List.foldl_cons, hline.addLine_eq hdepth]
    exact ih rfl

/-- The written lines lead a reader to where the lines themselves do. -/
theorem text_add (h : LeadLines r lines r') (hr : r.inLayout = true) {ls : IndentedLines}
    (hdepth : ls.depth = r.listDepth) :
    ∃ t, (ls.add lines).text = ls.text ++ t ∧ Leads r t.toList r' := by
  induction h generalizing ls with
  | nil r => exact ⟨"", (String.append_empty).symm, .nil r⟩
  | cons hline hlayout _ ih =>
    rename_i r r₁ r' line lines _
    have hafter : (ls.addLine line).depth = r₁.listDepth := by rw [hline.addLine_eq hdepth]
    obtain ⟨t, htext, hleads⟩ := ih hlayout hafter
    refine ⟨IndentedLines.indented (min r.listDepth r₁.listDepth) line ++ "\n" ++ t, ?_, ?_⟩
    · rw [IndentedLines.add, List.foldl_cons, ← IndentedLines.add, htext, hline.addLine_eq hdepth]
      simp [IndentedLines.text, String.join_append, String.append_assoc]
    · rw [String.toList_append]
      exact (leads_indented hline hr hlayout _).append hleads

theorem read?_text (h : LeadLines .start lines r') :
    PageReader.start.read? (IndentedLines.empty.add lines).text.toList = some r' := by
  have hstart : IndentedLines.empty.depth = PageReader.start.listDepth := rfl
  obtain ⟨t, htext, hleads⟩ := h.text_add rfl hstart
  have hempty : IndentedLines.empty.text = "" := rfl
  rw [htext, hempty, String.empty_append]
  exact hleads.read

theorem openLists?_text (h : LeadLines .start lines r') :
    openLists? (IndentedLines.empty.add lines).text = some r'.listDepth := by
  rw [openLists?, h.read?_text]
  rfl

/-- Every line is indented by the lists that are open. -/
theorem isIndented (h : LeadLines .start lines r') : IsIndented lines := by
  rintro before line after rfl
  obtain ⟨r₁, hbefore, hmore⟩ := h.exists_of_append
  obtain _ | ⟨hline, hlayout, -⟩ := hmore
  rename_i r₂
  refine ⟨r₁.listDepth, r₂.listDepth, hbefore.openLists?_text,
    (hbefore.append (single hline hlayout)).openLists?_text, ?_⟩
  have hmin : (if r₂.listDepth < r₁.listDepth then r₂.listDepth else r₁.listDepth) =
      min r₁.listDepth r₂.listDepth := by
    split <;> omega
  have hadd : IndentedLines.empty.add (before ++ [line]) =
      (IndentedLines.empty.add before).addLine line := List.foldl_append
  rw [hadd, hline.addLine_eq (hbefore.depth_add rfl), hmin]

end LeadLines
end RouteDocs.Html
