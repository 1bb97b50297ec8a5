import RouteDocs.Html.Render
import RouteDocs.Proofs.Bind

/-!
# What the texts of a page are refused for

Replacement templates, link templates and HTML attributes are refused for
reasons of their own. None of these is the failure to show an element, which
alone names the elements around it.

Results:
* `NotStuck.bind`, `NotStuck.map`: the rule is kept from step to step.
* `notStuck_text`, `notStuck_openingTag`, `notStuck_codeBlock`, `notStuck_linkAddress`: texts,
  tags, blocks of code and links obey it.
-/
namespace RouteDocs

/-- The failure to show an element. -/
def Fault.isStuck : Fault → Bool
  | .unrenderable .. => true
  | _ => false

namespace Html

/-- What may be refused, but not as an element that cannot be shown. -/
def NotStuck {α : Type} (x : Except Fault α) : Prop :=
  FailsAs (fun f => f.isStuck = false) x

section
variable {α β : Type} {x : Except Fault α}

theorem notStuck_ok (a : α) : NotStuck (.ok a : Except Fault α) :=
  FailsAs.ok a

theorem notStuck_error {f : Fault} (h : f.isStuck = false) : NotStuck (.error f : Except Fault α) :=
  FailsAs.error h

theorem NotStuck.bind (hx : NotStuck x) {f : α → Except Fault β} (hf : ∀ a, NotStuck (f a)) :
    NotStuck (x >>= f) :=
  FailsAs.bind hx fun a _ => hf a

theorem NotStuck.map (hx : NotStuck x) (f : α → β) : NotStuck (x.map f) :=
  FailsAs.map hx f

theorem notStuck_mapM {f : α → Except Fault β} (hf : ∀ a, NotStuck (f a)) (as : List α) :
    NotStuck (as.mapM f) :=
  FailsAs.mapM fun a _ => hf a

/-- A number that is too long is no element. -/
theorem notStuck_toText (v : Value) : NotStuck v.toText := by
  unfold Value.toText
  split
  · exact notStuck_ok _
  · exact notStuck_error rfl

end

/-! ## Texts -/

namespace Replacement

theorem notStuck_group (word : List Char) : NotStuck (group word) := by
  unfold group
  split
  · exact notStuck_error rfl
  · split
    · exact notStuck_ok _
    · exact notStuck_error rfl

theorem notStuck_part (c : Char) (rest : List Char) : NotStuck (part c rest) := by
  unfold part
  split
  · exact notStuck_ok _
  · split
    · exact notStuck_error rfl
    · dsimp only
      split
      · exact notStuck_error rfl
      · exact (notStuck_group _).map _
    · exact notStuck_ok _
    · split
      · split
        · exact notStuck_ok _
        · exact notStuck_error rfl
      · split
        · exact notStuck_ok _
        · split
          · exact notStuck_error rfl
          · exact notStuck_ok _

theorem notStuck_partsFrom (skip : Nat) (s : List Char) : NotStuck (partsFrom skip s) := by
  fun_induction partsFrom skip s with
  | case1 => exact notStuck_ok []
  | case2 skip _ rest ih => exact ih
  | case3 c rest f h =>
    exact notStuck_error (notStuck_part c rest f h)
  | case4 c rest ps more _ ih => exact ih.map _

end Replacement

theorem notStuck_markAll (markers : List (String × String)) (s : List Char) :
    NotStuck (markAll markers s) := by
  fun_induction markAll markers s with
  | case1 s => exact notStuck_ok s
  | case2 s word cssClass rest f h =>
    exact notStuck_error (Replacement.notStuck_partsFrom 0 _ f h)
  | case3 s word cssClass rest ps _ ih => exact ih

namespace Renderer

theorem notStuck_text (r : Renderer) (s : String) : NotStuck (r.text s) :=
  (notStuck_markAll _ _).bind fun _ => notStuck_ok _

theorem notStuck_codeBlock (r : Renderer) (language s : String) :
    NotStuck (r.codeBlock language s) :=
  (Replacement.notStuck_partsFrom 0 _).bind fun _ => notStuck_ok _

end Renderer

/-! ## Tags -/

theorem notStuck_numberedAttribute (items : List Value) (name : Value) :
    NotStuck (numberedAttribute items name) := by
  unfold numberedAttribute
  split
  · refine (notStuck_toText name).bind fun shown => ?_
    split
    · split
      · exact notStuck_ok _
      · exact notStuck_error rfl
    · exact notStuck_error rfl
  · exact notStuck_error rfl

theorem notStuck_openingTag (name : String) (html : Option Value) :
    NotStuck (openingTag name html) := by
  unfold openingTag
  split
  · exact notStuck_ok _
  · split
    · exact notStuck_ok _
    · exact notStuck_error rfl
  · refine NotStuck.map ?_ _
    unfold numberedAttributes
    split
    · exact notStuck_mapM (notStuck_numberedAttribute _) _
    · exact notStuck_error rfl
  · split
    · exact notStuck_error rfl
    · exact notStuck_ok _

theorem Renderer.notStuck_linkAttributes (as : Attributes) (address : String) :
    NotStuck (Renderer.linkAttributes as address) := by
  unfold Renderer.linkAttributes
  split
  · exact notStuck_ok _
  · exact notStuck_ok _
  · exact notStuck_error rfl

/-! ## Link templates -/

namespace LinkTemplate

theorem notStuck_refuse {α : Type} (p : TemplateProblem) : NotStuck (refuse p : Except Fault α) :=
  notStuck_error rfl

theorem notStuck_numberFrom (n : Nat) (s : List Char) : NotStuck (numberFrom n s) := by
  fun_induction numberFrom n s with
  | case1 n => exact notStuck_ok _
  | case2 n c rest d _ _ => exact notStuck_refuse _
  | case3 n c rest d _ _ ih => exact ih
  | case4 n c rest _ => exact notStuck_ok _

theorem notStuck_number (s : List Char) : NotStuck (number s) :=
  (notStuck_numberFrom 0 s).map _

theorem notStuck_wholeNumber (s : List Char) : NotStuck (wholeNumber s) :=
  (notStuck_number s).map _

theorem notStuck_readLimit (s : List Char) : NotStuck (readLimit s) := by
  unfold readLimit
  split
  · refine (notStuck_number _).bind fun found => ?_
    split
    · exact notStuck_ok _
    · exact notStuck_refuse _
  · exact notStuck_ok _

theorem notStuck_unless {c : Prop} [Decidable c] {α β : Type} {p : TemplateProblem}
    {k : α → Except Fault β} {rest : Except Fault β} (h : NotStuck rest) :
    NotStuck (if c then refuse p >>= k else rest) := by
  split
  · exact notStuck_refuse p
  · exact h

theorem notStuck_readFormat (s : List Char) : NotStuck (readFormat s) := by
  unfold readFormat
  refine (notStuck_number _).bind fun width => (notStuck_readLimit _).bind fun limit => ?_
  exact notStuck_unless (notStuck_unless (notStuck_ok _))

theorem notStuck_applyFormat (f : FieldFormat) (s : List Char) : NotStuck (applyFormat f s) := by
  unfold applyFormat
  dsimp only
  split
  · split
    · exact notStuck_refuse _
    · exact notStuck_ok _
  · split
    · exact notStuck_refuse _
    · exact notStuck_ok _

theorem notStuck_formatted (format : List Char) (p : Part) : NotStuck (formatted format p) := by
  unfold formatted
  split
  · split
    · exact notStuck_ok _
    · exact (notStuck_readFormat format).bind fun f => notStuck_applyFormat f _
  · split
    · exact notStuck_ok _
    · exact notStuck_refuse _

theorem notStuck_fieldName (inIndex : Bool) (s : List Char) : NotStuck (fieldName inIndex s) := by
  fun_induction fieldName inIndex s with
  | case1 => exact notStuck_refuse _
  | case2 c rest ih => exact ih.map _
  | case3 => exact notStuck_refuse _
  | case4 => exact notStuck_ok _
  | case5 _ c rest _ _ _ ih => exact ih.map _

theorem notStuck_fieldFormat (depth : Nat) (s : List Char) : NotStuck (fieldFormat depth s) := by
  fun_induction fieldFormat depth s with
  | case1 => exact notStuck_refuse _
  | case2 depth rest ih => exact ih.map _
  | case3 => exact notStuck_ok _
  | case4 rest depth _ ih => exact ih.map _
  | case5 depth c rest _ _ ih => exact ih.map _

theorem notStuck_readField (s : List Char) : NotStuck (readField s) := by
  unfold readField
  refine (notStuck_fieldName false s).bind fun (name, stop, rest) => ?_
  dsimp only
  split
  · exact notStuck_ok _
  · split
    · exact (notStuck_fieldFormat 0 _).bind fun _ => notStuck_ok _
    · split
      · exact notStuck_ok _
      · exact (notStuck_fieldFormat 0 _).bind fun _ => notStuck_ok _
      · exact notStuck_refuse _

theorem notStuck_item (p : Part) (i : Nat) : NotStuck (p.item i) := by
  unfold Part.item
  split
  · split
    · exact notStuck_ok _
    · exact notStuck_refuse _
  · split
    · exact notStuck_ok _
    · exact notStuck_refuse _
  · exact notStuck_refuse _

theorem notStuck_pick (fuel : Nat) (p : Part) (s : List Char) : NotStuck (pick fuel p s) := by
  fun_induction pick fuel p s with
  | case1 => exact notStuck_ok _
  | case2 | case3 | case5 | case7 | case8 => exact notStuck_refuse _
  | case4 _ p _ _ _ _ _ ih =>
    refine (notStuck_wholeNumber _).bind fun i => notStuck_unless ?_
    cases i with
    | none => exact notStuck_refuse _
    | some i => exact (notStuck_item p i).bind ih
  | case6 _ _ _ _ _ _ _ ih => exact ih

theorem notStuck_resolve (target name : List Char) : NotStuck (resolve target name) := by
  unfold resolve
  refine (notStuck_wholeNumber _).bind fun number => notStuck_unless (notStuck_unless ?_)
  exact notStuck_pick _ _ _

theorem notStuck_convert (conversion : Option Char) (p : Part) : NotStuck (convert conversion p) := by
  unfold convert
  split
  · exact notStuck_ok _
  · exact notStuck_ok _
  · exact notStuck_ok _
  · exact notStuck_ok _
  · exact notStuck_refuse _

theorem notStuck_fillWithin (target : List Char) (fuel depth : Nat) (s : List Char) :
    NotStuck (fillWithin target fuel depth s) := by
  fun_induction fillWithin target fuel depth s with
  | case1 => exact notStuck_ok _
  | case2 | case3 | case7 => exact notStuck_refuse _
  | case4 _ _ _ ih | case6 _ _ _ _ ih | case8 _ _ _ _ _ _ ih => exact ih.map _
  | case5 _ _ rest _ ihrest ihformat =>
    refine (notStuck_readField rest).bind fun (field, rest) => ?_
    refine (notStuck_resolve _ _).bind fun p => (notStuck_convert _ p).bind fun value => ?_
    have hshown : ∀ format, NotStuck (do
        let shown ← formatted format value
        (fillWithin target _ (_ + 1) rest).map (shown ++ ·)) := fun format =>
      (notStuck_formatted format value).bind fun _ => (ihrest rest).map _
    dsimp only
    split
    · exact (ihformat field).bind hshown
    · exact hshown field.format

theorem notStuck_fill (template target : String) : NotStuck (fill template target) :=
  (notStuck_fillWithin _ _ _ _).map _

end LinkTemplate

theorem Renderer.notStuck_linkPage (r : Renderer) (as : Attributes) :
    NotStuck (r.linkPage as) := by
  unfold Renderer.linkPage
  split
  · exact notStuck_ok _
  · refine (notStuck_toText _).bind fun shown => ?_
    split
    · exact LinkTemplate.notStuck_fill _ _
    · exact notStuck_ok _

theorem Renderer.notStuck_linkPlace (r : Renderer) (as : Attributes) :
    NotStuck (r.linkPlace as) := by
  unfold Renderer.linkPlace
  split
  · exact notStuck_ok _
  · exact (notStuck_toText _).bind fun _ => notStuck_ok _

theorem Renderer.notStuck_linkAddress (r : Renderer) (as : Attributes) :
    NotStuck (r.linkAddress as) :=
  (r.notStuck_linkPage as).bind fun _ => (r.notStuck_linkPlace as).bind fun _ => notStuck_ok _

end Html
end RouteDocs
