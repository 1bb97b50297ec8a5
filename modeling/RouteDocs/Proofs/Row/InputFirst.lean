import RouteDocs.Proofs.RepairOrder
import RouteDocs.Proofs.Row.Mend

/-!
# Input before output

In an ordered page every section has one input heading at most, one output
heading at most, and the input heading before the output heading. Making sure of
an input or an output list keeps that: an input heading is put in only where no
input heading and no output heading has been passed, and either the section ends
there or its output heading follows; an output heading only at the end of a
section that has none.

Results:
* `InputFirst.withInput`, `InputFirst.withOutput`: where a title can be put in.
* `inputFirst_mends`: a section in order is in order when a list is made sure of.
* `ordered_cons`, `Ordered.replace`: a page is in order by its sections.
* `ordered_ensureList`, `ensureLists_ordered`: one list, and then any number of lists.
-/
namespace RouteDocs

namespace Row

/-- The nodes in front of the next heading that ends a section. -/
def region (ns : List Node) : List Node :=
  ns.takeWhile fun n => !n.endsSection

/-- Titles with one input and one output at most, and no input behind an output. -/
structure InputFirst (ts : List String) : Prop where
  oneInput : ts.count ListKind.input.label ≤ 1
  oneOutput : ts.count ListKind.output.label ≤ 1
  inOrder : ts.Pairwise fun s t => ¬(s = ListKind.output.label ∧ t = ListKind.input.label)

/-- In every section of a row, headings of level three opening them, input comes before output. -/
def Ordered (ns : List Node) : Prop :=
  ∀ before heading rest, ns = before ++ heading :: rest → heading.isA .head3 = true →
    InputFirst (titles (region rest))

theorem inputFirst_iff {ts : List String} : InputFirst ts ↔
    ts.count ListKind.input.label ≤ 1 ∧ ts.count ListKind.output.label ≤ 1 ∧
      ts.Pairwise fun s t => ¬(s = ListKind.output.label ∧ t = ListKind.input.label) :=
  ⟨fun h => ⟨h.oneInput, h.oneOutput, h.inOrder⟩, fun h => ⟨h.1, h.2.1, h.2.2⟩⟩

instance (ts : List String) : Decidable (InputFirst ts) :=
  decidable_of_iff' _ inputFirst_iff

/-! ## Titles -/

section
variable {ts front back : List String}

theorem input_ne_output : ListKind.input.label ≠ ListKind.output.label := by
  decide

/-- An input title can be put in in front of the output title, where none has come before. -/
theorem InputFirst.withInput (h : InputFirst (front ++ back)) (hin : ListKind.input.label ∉ front)
    (hout : ListKind.output.label ∉ front)
    (hback : ∀ t, back.head? = some t → t = ListKind.output.label) :
    InputFirst (front ++ ListKind.input.label :: back) := by
  obtain ⟨-, hcount, hpairs⟩ := h
  obtain ⟨hfront, hback', hacross⟩ := List.pairwise_append.1 hpairs
  have hnone : ListKind.input.label ∉ back := by
    cases back with
    | nil => exact List.not_mem_nil
    | cons t back =>
      obtain rfl := hback t rfl
      rw [List.mem_cons, not_or]
      exact ⟨input_ne_output, fun hmem => (List.pairwise_cons.1 hback').1 _ hmem ⟨rfl, rfl⟩⟩
  refine ⟨?_, ?_, List.pairwise_append.2 ⟨hfront, List.pairwise_cons.2 ⟨?_, hback'⟩, ?_⟩⟩
  · have hone : (front ++ ListKind.input.label :: back).count ListKind.input.label = 1 := by
      rw [List.count_append, List.count_cons_self, List.count_eq_zero.2 hin,
        List.count_eq_zero.2 hnone]
    exact Nat.le_of_eq hone
  · rwa [List.count_append, List.count_cons_of_ne input_ne_output, ← List.count_append]
  · rintro t - ⟨hs, -⟩
    exact input_ne_output hs
  · intro s hs t ht
    rcases List.mem_cons.1 ht with rfl | ht
    · rintro ⟨rfl, -⟩
      exact hout hs
    · exact hacross s hs t ht

/-- An output title can be put in at the end, where there is none. -/
theorem InputFirst.withOutput (h : InputFirst ts) (hout : ListKind.output.label ∉ ts) :
    InputFirst (ts ++ [ListKind.output.label]) := by
  obtain ⟨hcount, -, hpairs⟩ := h
  refine ⟨?_, ?_, List.pairwise_append.2 ⟨hpairs, List.pairwise_singleton _ _, ?_⟩⟩
  · rwa [List.count_append, List.count_singleton, beq_eq_false_iff_ne.2 input_ne_output.symm,
      if_neg Bool.false_ne_true, Nat.add_zero]
  · have hone : (ts ++ [ListKind.output.label]).count ListKind.output.label = 1 := by
      rw [List.count_append, List.count_eq_zero.2 hout, List.count_singleton_self]
    exact Nat.le_of_eq hone
  · rintro s - t ht ⟨-, htin⟩
    rw [List.mem_singleton.1 ht] at htin
    exact input_ne_output htin.symm

end

/-! ## A section -/

section
variable {onFile : Prop} {kind : String} {heading : Node}
  {inside fixed front between after : List Node}

theorem titles_withList (between after : List Node) :
    titles (withList between after) = titles (between ++ after) := by
  have hlist : Node.newDefinitionList.isA .head4 = false := rfl
  unfold withList
  split
  · rfl
  · rw [titles_append, titles_cons_other hlist, titles_append]

theorem Headed.titles_eq (h : Headed kind inside front heading between after) :
    titles (front ++ heading :: withList between after) = titles inside := by
  rw [h.split, titles_append, titles_append, titles_cons_head4 h.isHeading,
    titles_cons_head4 h.isHeading, titles_withList]

theorem Headless.titles_eq (h : Headless kind inside front after) :
    titles (front ++ Node.newHeading 4 kind :: Node.newDefinitionList :: after) =
        titles front ++ kind :: titles after ∧
      titles inside = titles front ++ titles after := by
  have hheading : (Node.newHeading 4 kind).isA .head4 = true := rfl
  have hlist : Node.newDefinitionList.isA .head4 = false := rfl
  rw [titles_append, titles_cons_head4 hheading, titles_cons_other hlist, flatten_newHeading,
    h.split, titles_append]
  exact ⟨rfl, rfl⟩

theorem Headless.head?_titles (h : Headless kind inside front after) {t : String}
    (ht : (titles after).head? = some t) : t = ListKind.output.label := by
  cases after with
  | nil => cases ht
  | cons n rest =>
    obtain ⟨-, h4, htext⟩ := h.ends n rfl
    rw [titles_cons_head4 h4, List.head?_cons, Option.some.injEq] at ht
    rw [← ht, htext]

/-- Any other heading is put in at the end of its section. -/
theorem Headless.after_eq_nil (h : Headless kind inside front after)
    (hkind : kind ≠ ListKind.input.label) : after = [] := by
  cases after with
  | nil => rfl
  | cons n rest => exact absurd (h.ends n rfl).1 hkind

/-- A section in order is in order when an input or output list of it is made sure of. -/
theorem inputFirst_mends {kind : ListKind} (h : Mends onFile kind.label inside fixed)
    (hinside : InputFirst (titles inside)) : InputFirst (titles fixed) := by
  rcases h.cases with rfl | ⟨front, heading, between, after, hcut, rfl⟩ | ⟨front, after, hcut, rfl⟩
  · exact hinside
  · rwa [hcut.titles_eq]
  · obtain ⟨hfixed, hbefore⟩ := hcut.titles_eq
    rw [hfixed]
    rw [hbefore] at hinside
    cases kind with
    | input => exact hinside.withInput hcut.absent (hcut.noOutput rfl) fun _ => hcut.head?_titles
    | output =>
      obtain rfl := hcut.after_eq_nil input_ne_output.symm
      rw [show titles [] = [] from rfl, List.append_nil] at hinside
      exact hinside.withOutput hcut.absent

end

/-! ## A row of sections -/

section
variable {n heading : Node} {ns before inside fixed rest : List Node}

theorem ordered_nil : Ordered [] := by
  intro before heading rest h
  exact absurd h.symm (by simp)

/-- A row is in order if its first section is, where it starts with one, and the rest is. -/
theorem ordered_cons : Ordered (n :: ns) ↔
    (n.isA .head3 = true → InputFirst (titles (region ns))) ∧ Ordered ns := by
  constructor
  · intro h
    refine ⟨h [] n ns rfl, fun before heading rest hsplit => ?_⟩
    exact h (n :: before) heading rest (congrArg (n :: ·) hsplit)
  · rintro ⟨hn, hns⟩ before heading rest hsplit h3
    cases before with
    | nil =>
      obtain ⟨rfl, rfl⟩ := List.cons.inj hsplit
      exact hn h3
    | cons m before =>
      obtain ⟨-, hrest⟩ := List.cons.inj hsplit
      exact hns before heading rest hrest h3

instance decidableOrdered : ∀ ns : List Node, Decidable (Ordered ns)
  | [] => isTrue ordered_nil
  | _ :: ns =>
    have := decidableOrdered ns
    decidable_of_iff' _ ordered_cons

theorem region_append (h : ∀ n ∈ inside, n.endsSection = false)
    (hrest : ∀ n, rest.head? = some n → n.endsSection = true) : region (inside ++ rest) = inside := by
  have hinside : ∀ n ∈ inside, (!n.endsSection) = true := by simpa using h
  rw [region, List.takeWhile_append_of_pos hinside]
  cases rest with
  | nil => exact List.append_nil _
  | cons n rest => rw [List.takeWhile_cons, hrest n rfl, Bool.not_true, if_neg Bool.false_ne_true,
      List.append_nil]

theorem region_append_heading (h : heading.endsSection = true) (before ns ms : List Node) :
    region (before ++ heading :: ns) = region (before ++ heading :: ms) := by
  induction before with
  | nil => simp [region, h]
  | cons n before ih =>
    unfold region at ih ⊢
    rw [List.cons_append, List.cons_append, List.takeWhile_cons, List.takeWhile_cons, ih]

theorem ordered_inside (h : ∀ n ∈ inside, n.endsSection = false) :
    Ordered (inside ++ rest) ↔ Ordered rest := by
  induction inside with
  | nil => exact Iff.rfl
  | cons n inside ih =>
    obtain ⟨hn, hinside⟩ := List.forall_mem_cons.1 h
    rw [List.cons_append, ordered_cons, Node.isA_head3_of_not_end hn, ih hinside]
    exact and_iff_right nofun

/-- A row in order stays in order when what follows the heading of a section is replaced by
something in order. -/
theorem Ordered.replace (hheading : heading.endsSection = true) {ns ms : List Node}
    (h : Ordered (before ++ heading :: ns)) (hms : Ordered (heading :: ms)) :
    Ordered (before ++ heading :: ms) := by
  induction before with
  | nil => exact hms
  | cons n before ih =>
    rw [List.cons_append, ordered_cons] at h ⊢
    rw [region_append_heading hheading before ms ns]
    exact ⟨h.1, ih h.2⟩

theorem endsSection_mends {onFile : Prop} {kind : String} (h : Mends onFile kind inside fixed)
    (hinside : ∀ n ∈ inside, n.endsSection = false) : ∀ n ∈ fixed, n.endsSection = false := by
  have hlist : Node.newDefinitionList.endsSection = false := rfl
  have hheading : (Node.newHeading 4 kind).endsSection = false := rfl
  rcases h.cases with rfl | ⟨front, heading, between, after, hcut, rfl⟩ | ⟨front, after, hcut, rfl⟩
  · exact hinside
  · rw [hcut.split] at hinside
    unfold withList
    split
    · exact hinside
    · simp only [List.forall_mem_append, List.forall_mem_cons] at hinside ⊢
      exact ⟨hinside.1, hinside.2.1, hinside.2.2.1, hlist, hinside.2.2.2⟩
  · rw [hcut.split] at hinside
    simp only [List.forall_mem_append, List.forall_mem_cons] at hinside ⊢
    exact ⟨hinside.1, hheading, hlist, hinside.2⟩

end

end Row

/-! ## Drafts -/

namespace Draft

section
variable {d : Draft} {S : String} {requests : List (String × ListKind)}

/-- A page in order is in order when an input or output list is made sure of. -/
theorem ordered_ensureList (hsection : Row.HasSection S d.page.nodes) (h : Row.Ordered d.page.nodes)
    (kind : ListKind) : Row.Ordered (d.ensureList S kind.label).1.page.nodes := by
  obtain ⟨before, heading, inside, rest, hcut⟩ := Row.exists_firstSection hsection
  obtain ⟨fixed, hnodes, hmends⟩ := mends_ensureList hcut kind.label
  have hheading : heading.endsSection = true := Node.endsSection_iff.2 (.inr (.inr hcut.isHeading))
  have hfixed := Row.endsSection_mends hmends hcut.inside
  rw [hcut.split] at h
  -- the order of the section itself, and that of the sections behind it
  have hinside : Row.InputFirst (Row.titles inside) := by
    have hregion := h before heading (inside ++ rest) rfl hcut.isHeading
    rwa [Row.region_append hcut.inside hcut.ends] at hregion
  have hrest : Row.Ordered rest := by
    intro front other back hsplit
    refine h (before ++ heading :: (inside ++ front)) other back ?_
    rw [hsplit, List.append_assoc, List.cons_append, List.append_assoc]
  rw [hnodes]
  refine h.replace hheading (Row.ordered_cons.2 ⟨fun _ => ?_, (Row.ordered_inside hfixed).2 hrest⟩)
  rw [Row.region_append hfixed hcut.ends]
  exact Row.inputFirst_mends hmends hinside

theorem hasSection_ensureList {T : String} (h : Row.HasSection T d.page.nodes) (S kind : String) :
    Row.HasSection T (d.ensureList S kind).1.page.nodes := by
  obtain ⟨n, hn, hheading⟩ := h
  refine ⟨n, ?_, hheading⟩
  rcases page_ensureList d S kind with hpage | ⟨position, withHeading, hpage⟩
  · rwa [hpage]
  · rw [hpage, Page.nodes_insertAt, List.append_assoc, List.mem_append, List.mem_append]
    rw [← List.take_append_drop position d.page.nodes, List.mem_append] at hn
    exact hn.imp_right .inr

/-- Whatever input and output lists of sections are made sure of, one after the other, a page in
order is in order after each of them. -/
theorem ensureLists_ordered (h : Row.Ordered d.page.nodes)
    (hs : ∀ r ∈ requests, Row.HasSection r.1 d.page.nodes) (count : Nat) :
    Row.Ordered (d.ensureLists (requests.take count)).page.nodes := by
  induction requests generalizing d count with
  | nil => rwa [List.take_nil]
  | cons r rest ih =>
    obtain ⟨hr, hrest⟩ := List.forall_mem_cons.1 hs
    cases count with
    | zero => exact h
    | succ count =>
      exact ih (ordered_ensureList hr h r.2) (fun r' hr' => hasSection_ensureList (hrest r' hr') _ _)
        count

end

/-- Two sections with one heading: the first has its output only, the second both. -/
theorem ensureLists_ordered_of_two_sections :
    let d := ofPage (.ofElement "Document" [] [
      .element "head3" [] [.text "GET /a"], .element "head4" [] [.text "Output"],
      .element "head4" [] [.text "Notes"], .element "head3" [] [.text "GET /b"],
      .element "head2" [] [.text "More"], .element "head3" [] [.text "GET /a"],
      .element "head4" [] [.text "Input"], .element "head4" [] [.text "Output"]])
    let requests : List (String × ListKind) :=
      [("GET /b", .output), ("GET /a", .input), ("GET /b", .input), ("GET /a", .output)]
    Row.Ordered d.page.nodes ∧ (∀ r ∈ requests, Row.HasSection r.1 d.page.nodes) ∧
      ∀ count, Row.Ordered (d.ensureLists (requests.take count)).page.nodes := by
  intro d requests
  have h : Row.Ordered d.page.nodes := by decide
  have hs : ∀ r ∈ requests, Row.HasSection r.1 d.page.nodes := by decide
  exact ⟨h, hs, ensureLists_ordered h hs⟩

end Draft
end RouteDocs
