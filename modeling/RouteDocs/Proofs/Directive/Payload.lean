import Mathlib.Data.List.Basic
import RouteDocs.Directive
import RouteDocs.Proofs.Text.Blank
import RouteDocs.Proofs.Text.Line

/-!
# What a directive asks for

The requests of a directive by how they are written, not by how they are read: a
line each, with blanks around its parts, among lines of another form, in the
texts right inside the data elements anywhere in the directive.

Results:
* `ofLine?_of_isLine`: what is read off a line.
* `ofText_of_writes`: what is read off a text of lines.
* `ofDirective_of_carries`: what is read off a directive.
-/
namespace RouteDocs.Request

/-! ## Lines -/

/-- The word that a request starts with. -/
def keyword (kind : ListKind) : List Char :=
  (kind.word ++ "-from").toList

/-- The text of a line that asks for something: a word, a blank, and more. -/
def IsForm (s : List Char) : Prop :=
  ∃ kind c rest, Text.isBlank c = true ∧ rest ≠ [] ∧ s = keyword kind ++ c :: rest

/-- A name that can be asked for: some text without blanks at its ends. -/
structure IsReference (s : List Char) : Prop where
  nonempty : s ≠ []
  first : ∀ c ∈ s.head?, Text.isBlank c = false
  last : ∀ c ∈ s.getLast?, Text.isBlank c = false

theorem isReference_iff {s : List Char} :
    IsReference s ↔ s ≠ [] ∧ s.head?.any Text.isBlank = false ∧
      s.getLast?.any Text.isBlank = false := by
  have hends (o : Option Char) :
      o.any Text.isBlank = false ↔ ∀ c ∈ o, Text.isBlank c = false := by cases o <;> simp
  rw [hends, hends]
  exact ⟨fun ⟨h, hfirst, hlast⟩ => ⟨h, hfirst, hlast⟩, fun ⟨h, hfirst, hlast⟩ => ⟨h, hfirst, hlast⟩⟩

instance : DecidablePred IsReference :=
  fun _ => decidable_of_iff' _ isReference_iff

/-- A request as it is written on a line, with blanks before, between and after its parts. -/
def written (before gap after : List Char) (r : Request) : List Char :=
  before ++ ((keyword r.kind ++ (gap ++ r.reference.toList)) ++ after)

/-- A line with a request, or a line that asks for nothing. -/
inductive IsLine : List Char → Option Request → Prop where
  | request {r : Request} {before gap after : List Char}
      (hbefore : ∀ c ∈ before, Text.isBlank c = true)
      (hgap : ∀ c ∈ gap, Text.isBlank c = true) (hsome : gap ≠ [])
      (hafter : ∀ c ∈ after, Text.isBlank c = true)
      (hreference : IsReference r.reference.toList) :
      IsLine (written before gap after r) (some r)
  | other {line : List Char} (h : ¬ IsForm (Text.trim line)) : IsLine line none

theorem dropWord?_append (word rest : List Char) : dropWord? word (word ++ rest) = some rest := by
  induction word with
  | nil => rfl
  | cons c word ih => rw [List.cons_append, dropWord?, if_pos rfl, ih]

theorem eq_append_of_dropWord? {word s rest : List Char} (h : dropWord? word s = some rest) :
    s = word ++ rest := by
  induction word generalizing s with
  | nil =>
    cases h
    rfl
  | cons c word ih =>
    cases s with
    | nil => cases h
    | cons d s =>
      rw [dropWord?] at h
      split at h
      · rename_i hc
        rw [hc, ih h, List.cons_append]
      · cases h

theorem reference?_of_not_isForm {s : List Char} (h : ¬ IsForm s) (kind : ListKind) :
    reference? kind s = none := by
  rw [reference?]
  split
  · rename_i c rest hdrop
    refine if_neg fun hblank => h ⟨kind, c, rest, ?_⟩
    rw [Bool.and_eq_true, Bool.not_eq_true', List.isEmpty_eq_false_iff] at hblank
    exact ⟨hblank.1, hblank.2, eq_append_of_dropWord? hdrop⟩
  · rfl

theorem isForm_iff {s : List Char} :
    IsForm s ↔ (reference? .input s).isSome = true ∨ (reference? .output s).isSome = true := by
  constructor
  · rintro ⟨kind, c, rest, hc, hrest, rfl⟩
    have hread : (reference? kind (keyword kind ++ c :: rest)).isSome = true := by
      have hdrop : dropWord? (kind.word ++ "-from").toList (keyword kind ++ c :: rest) =
          some (c :: rest) := dropWord?_append _ _
      rw [reference?, hdrop]
      simp [hc, hrest]
    cases kind with
    | input => exact .inl hread
    | output => exact .inr hread
  · refine fun h => Classical.byContradiction fun hform => ?_
    rw [reference?_of_not_isForm hform, reference?_of_not_isForm hform] at h
    simp at h

instance : DecidablePred IsForm :=
  fun _ => decidable_of_iff' _ isForm_iff

theorem IsReference.trim_eq {s : List Char} (h : IsReference s) {gap : List Char}
    (hgap : ∀ c ∈ gap, Text.isBlank c = true) : Text.trim (gap ++ s) = s := by
  have htrim := Text.trim_append hgap (List.forall_mem_nil _) h.nonempty h.first h.last
  rwa [List.append_nil] at htrim

theorem reference?_keyword (kind : ListKind) {gap s : List Char}
    (hgap : ∀ c ∈ gap, Text.isBlank c = true) (hsome : gap ≠ []) (hs : IsReference s) :
    reference? kind (keyword kind ++ (gap ++ s)) = some (String.ofList s) := by
  obtain ⟨c, gap, rfl⟩ := List.exists_cons_of_ne_nil hsome
  rw [List.forall_mem_cons] at hgap
  have hdrop : dropWord? (kind.word ++ "-from").toList (keyword kind ++ (c :: gap ++ s)) =
      some (c :: (gap ++ s)) := dropWord?_append _ _
  have hrest : (gap ++ s).isEmpty = false := by
    simpa using fun _ => hs.nonempty
  rw [reference?, hdrop]
  simp only [hgap.1, hrest, Bool.not_false, Bool.and_true, if_pos, hs.trim_eq hgap.2]

theorem reference?_keyword_output (s : List Char) :
    reference? .input (keyword .output ++ s) = none := by
  have hinput : (ListKind.input.word ++ "-from").toList = 'i' :: "nput-from".toList := by decide
  have houtput : keyword .output = 'o' :: "utput-from".toList := by decide
  rw [reference?, hinput, houtput, List.cons_append, dropWord?, if_neg (by decide)]

/-- What is read off a line. -/
theorem ofLine?_of_isLine {line : List Char} {r : Option Request} (h : IsLine line r) :
    ofLine? line = r := by
  cases h with
  | @request r before gap after hbefore hgap hsome hafter hreference =>
    have hstart : ∃ c rest, keyword r.kind = c :: rest ∧ Text.isBlank c = false := by
      cases r.kind with
      | input => exact ⟨'i', _, rfl, by decide⟩
      | output => exact ⟨'o', _, rfl, by decide⟩
    have htrim : Text.trim (written before gap after r) =
        keyword r.kind ++ (gap ++ r.reference.toList) := by
      obtain ⟨c, rest, hkeyword, hblank⟩ := hstart
      refine Text.trim_append hbefore hafter (by simp [hkeyword]) ?_ ?_
      · rw [hkeyword]
        rintro d ⟨⟩
        exact hblank
      · intro d hd
        rw [← List.append_assoc, List.getLast?_append_of_ne_nil _ hreference.nonempty] at hd
        exact hreference.last d hd
    have hread := reference?_keyword r.kind hgap hsome hreference
    rw [String.ofList_toList] at hread
    rw [ofLine?, htrim]
    obtain ⟨kind, reference⟩ := r
    cases kind with
    | input => rw [hread]
    | output =>
      rw [reference?_keyword_output, hread]
      rfl
  | other h => rw [ofLine?, reference?_of_not_isForm h, reference?_of_not_isForm h, Option.map_none]

/-! ## Texts -/

/-- A text of lines between boundaries, with requests on some of them. -/
inductive Writes : List Char → List Request → Prop where
  | last {line : List Char} {r : Option Request} (hline : IsLine line r)
      (h : ∀ c ∈ line, Text.isLineEnd c = false) : Writes line r.toList
  | more {line boundary text : List Char} {r : Option Request} {rs : List Request}
      (hline : IsLine line r) (h : ∀ c ∈ line, Text.isLineEnd c = false)
      (hboundary : Text.IsBoundary boundary) (htext : Writes text rs) :
      Writes (line ++ (boundary ++ text)) (r.toList ++ rs)

theorem Writes.separated {s : List Char} {rs : List Request} (h : Writes s rs) :
    ∃ ls, Text.Separated s ls ∧ ls.filterMap ofLine? = rs := by
  induction h with
  | @last line r hline h =>
    refine ⟨[line], .last h, ?_⟩
    rw [List.filterMap_cons, ofLine?_of_isLine hline]
    cases r <;> rfl
  | @more line boundary text r rs hline h hboundary _ ih =>
    obtain ⟨ls, hseparated, hread⟩ := ih
    refine ⟨line :: ls, .more h hboundary hseparated, ?_⟩
    rw [List.filterMap_cons, ofLine?_of_isLine hline, hread]
    cases r <;> rfl

theorem ofText_of_writes {s : String} {rs : List Request} (h : Writes s.toList rs) :
    ofText s = rs := by
  obtain ⟨ls, hseparated, hread⟩ := h.separated
  have hempty : ofLine? [] = none := by decide
  rw [ofText, Text.filterMap_lines hempty hseparated, hread]

/-! ## Directives -/

/-- The children of a data element: requests are written in the texts among them. -/
inductive DataCarries : List Node → List Request → Prop where
  | nil : DataCarries [] []
  | text {s : String} {rs : List Request} {rest : List Node} {qs : List Request}
      (h : Writes s.toList rs) (hrest : DataCarries rest qs) :
      DataCarries (.text s :: rest) (rs ++ qs)
  | element {name : String} {as : Attributes} {cs rest : List Node} {qs : List Request}
      (hrest : DataCarries rest qs) : DataCarries (.element name as cs :: rest) qs

mutual

/-- A node with requests in its data elements, which may stand anywhere in it. -/
inductive Carries : Node → List Request → Prop where
  | text {s : String} : Carries (.text s) []
  | data {as : Attributes} {cs : List Node} {rs : List Request} (h : DataCarries cs rs) :
      Carries (.element Kind.data.name as cs) rs
  | inner {name : String} {as : Attributes} {cs : List Node} {rs : List Request}
      (hname : name ≠ Kind.data.name) (h : CarriesAll cs rs) : Carries (.element name as cs) rs

inductive CarriesAll : List Node → List Request → Prop where
  | nil : CarriesAll [] []
  | cons {n : Node} {rs : List Request} {rest : List Node} {qs : List Request}
      (h : Carries n rs) (hrest : CarriesAll rest qs) : CarriesAll (n :: rest) (rs ++ qs)

end

/-- The requests in a node right inside a data element. -/
def ofPayload : Node → List Request
  | .text s => ofText s
  | .element .. => []

theorem ofDirective_eq (n : Node) :
    ofDirective n = (n.contents Kind.data.name).flatMap ofPayload := rfl

theorem flatMap_of_dataCarries {cs : List Node} {rs : List Request} (h : DataCarries cs rs) :
    cs.flatMap ofPayload = rs := by
  induction h with
  | nil => rfl
  | text h _ ih => rw [List.flatMap_cons, ih, ofPayload, ofText_of_writes h]
  | element _ ih => rw [List.flatMap_cons, ih, ofPayload, List.nil_append]

mutual

theorem flatMap_of_carries : ∀ {n : Node} {rs : List Request}, Carries n rs →
    (n.contents Kind.data.name).flatMap ofPayload = rs
  | _, _, .text => rfl
  | _, _, .data h => by
    rw [Node.contents, if_pos rfl]
    exact flatMap_of_dataCarries h
  | _, _, .inner hname h => by
    rw [Node.contents, if_neg hname]
    exact flatMap_of_carriesAll h

theorem flatMap_of_carriesAll : ∀ {ns : List Node} {rs : List Request}, CarriesAll ns rs →
    (Node.contentsAll Kind.data.name ns).flatMap ofPayload = rs
  | _, _, .nil => rfl
  | _, _, .cons h hrest => by
    rw [Node.contentsAll, List.flatMap_append, flatMap_of_carries h, flatMap_of_carriesAll hrest]

end

/-- What is read off a directive. -/
theorem ofDirective_of_carries {n : Node} {rs : List Request} (h : Carries n rs) :
    ofDirective n = rs :=
  (ofDirective_eq n).trans (flatMap_of_carries h)

end RouteDocs.Request
