import RouteDocs.Proofs.Html.Markup
import RouteDocs.Proofs.Html.Replacement

/-!
# Labels of a marker word

The page text of a text in which a marker word was looked for is made of labels and
of characters outside of them. References to routes are then linked. A label holds
no reference but in its word, so that it stays as it is, or is cut by a reference
that ends in its opening tag. Every label that is still whole encloses what the
word has come to in the template.

Results:
* `parts_label`: what the template of a label comes to.
* `blocks_markWord`: page text is labels and other characters.
* `labelsEnclose_linked`: what the labels in linked page text enclose.
* `prefix_of_prefix_linkReferences`: what linked text begins with, up to the first tag.
* `labelsEnclose_iff`: every label encloses the marker word exactly if the word is literal and no
  reference starts in it.
-/
namespace RouteDocs.Html

open Replacement (Literal Spoken parts)

/-! ## Labels in a page -/

def labelHead : List Char := "<span class=\"label ".toList

/-- Every label in a page encloses a word and nothing else. -/
def LabelsEnclose (word page : List Char) : Prop :=
  ∀ before cssClass after, page = before ++ (labelHead ++ (cssClass ++ ("\">".toList ++ after))) →
    '"' ∉ cssClass → word ++ "</span>".toList <+: after

namespace LabelsEnclose

variable {word page : List Char}

theorem nil : LabelsEnclose word [] := by
  intro before cssClass after h
  have hlabel := (List.append_eq_nil_iff.1 h.symm).2
  exact absurd (List.append_eq_nil_iff.1 hlabel).1 (by decide)

/-- A character at which no label begins. -/
theorem cons {c : Char} (hc : ¬labelHead <+: c :: page) (h : LabelsEnclose word page) :
    LabelsEnclose word (c :: page) := by
  intro before cssClass after heq hclass
  cases before with
  | nil => exact absurd ⟨_, heq.symm⟩ hc
  | cons d before =>
    obtain ⟨-, hrest⟩ := List.cons.inj heq
    exact h before cssClass after hrest hclass

theorem plain {u : List Char} (hu : '<' ∉ u) (h : LabelsEnclose word page) :
    LabelsEnclose word (u ++ page) := by
  induction u with
  | nil => exact h
  | cons c u ih =>
    rw [List.mem_cons, not_or] at hu
    refine cons ?_ (ih hu.2)
    rintro ⟨t, ht⟩
    exact hu.1 (List.cons.inj ht).1

theorem tag {d : Char} (hd : d ≠ 's') (h : LabelsEnclose word (d :: page)) :
    LabelsEnclose word ('<' :: d :: page) := by
  refine cons ?_ h
  rintro ⟨t, ht⟩
  exact hd (List.cons.inj (List.cons.inj ht).2).1.symm

theorem closing {u : List Char} (hu : '<' ∉ u) (h : LabelsEnclose word page) :
    LabelsEnclose word ('<' :: '/' :: (u ++ page)) :=
  tag (by decide) (plain (u := '/' :: u) (by simpa using hu) h)

end LabelsEnclose

/-! ## Page text of labels and other characters -/

/-- Page text that is made of one label, again and again, and of characters outside of it. -/
inductive Blocks (label : List Char) : List Char → Prop where
  | nil : Blocks label []
  | char {c : Char} {m : List Char} (h : c ≠ '<') : Blocks label m → Blocks label (c :: m)
  | label {m : List Char} : Blocks label m → Blocks label (label ++ m)

/-- A pass for a word makes labels of it in text without tags. -/
theorem blocks_markWord {word : String} {label : List Char} (hne : word.toList ≠ [])
    (s : List Char) (hs : '<' ∉ s) :
    Blocks label (markWord word.toList (label.map .char) 0 s) := by
  have hmarkers : ∀ m ∈ [(word, "")], m.1.toList ≠ [] := by
    intro m hm
    rwa [List.mem_singleton.1 hm]
  induction s using marked_induction hmarkers with
  | nil =>
    obtain ⟨c, w, hw⟩ := List.exists_cons_of_ne_nil hne
    simpa [markWord, hw] using Blocks.nil
  | label m tail hm hat ih =>
    rw [List.mem_singleton.1 hm] at hs ⊢
    rw [markWord_word hne]
    exact .label (ih fun hmem => hs (List.mem_append_right _ ((dropColon_suffix tail).subset hmem)))
  | char c rest hat ih =>
    rw [List.mem_cons, not_or] at hs
    rw [markWord_char (markerAt?_eq_none_iff.1 hat _ List.mem_cons_self)]
    exact .char (Ne.symm hs.1) (ih hs.2)

theorem markWord_self {word : List Char} (hne : word ≠ []) (label : List Char) :
    markWord word (label.map .char) 0 word = label := by
  have hempty : markWord word (label.map .char) 0 [] = [] := by
    rw [markWord, if_neg (by simpa using hne)]
  have hmarked := markWord_word hne label []
  rwa [List.append_nil, dropColon, hempty, List.append_nil] at hmarked

/-- Characters outside of the labels at the head of page text. -/
theorem Blocks.of_append {label u m : List Char} (hlabel : label.head? = some '<') (hu : '<' ∉ u)
    (h : Blocks label (u ++ m)) : Blocks label m := by
  induction u with
  | nil => exact h
  | cons c u ih =>
    rw [List.mem_cons, not_or] at hu
    generalize heq : c :: u ++ m = s at h
    cases h with
    | nil => cases heq
    | char hc h =>
      obtain ⟨-, rfl⟩ := List.cons.inj heq
      exact ih hu.2 h
    | label h =>
      obtain ⟨d, l, rfl⟩ : ∃ d l, label = d :: l := by
        cases label with
        | nil => cases hlabel
        | cons d l => exact ⟨d, l, rfl⟩
      cases hlabel
      exact absurd (List.cons.inj heq).1.symm hu.1

/-! ## References in page text -/

/-- A setting in which a label is told from the text around it: its class, the methods and the
prefix of links hold nothing that has a meaning in a page. -/
structure PlainSetting (c : RenderConfig) (cssClass : String) : Prop where
  cssClass : ∀ x ∈ cssClass.toList, x ∉ special ∧ x ≠ '\\' ∧ x ≠ '/'
  methods : ∀ m ∈ c.routeMethods, ∀ x ∈ m.toList, x ∉ special
  anchorPrefix : '<' ∉ c.anchorPrefix.toList

/-- No reference to a route starts in a marker word, with the closing tag after it. -/
def Unlinked (methods : List String) (word : List Char) : Prop :=
  ∀ n < word.length, reference? (methods.map String.toList) (word.drop n ++ "</span>".toList) = none

section
variable {methods : List String}

/-- The methods that are looked for: with none, nothing stands for the method. -/
def methodsFor (methods : List String) : List (List Char) :=
  if (methods.map String.toList).isEmpty then [[]] else methods.map String.toList

theorem reference?_none_iff {s : List Char} :
    reference? (methods.map String.toList) s = none ↔
      ∀ m ∈ methodsFor methods, referenceWith? m s = none := by
  rw [reference?, List.findSome?_eq_none_iff, methodsFor]

theorem linkReferences_char {anchorPrefix : String} {target : String → String} {c : Char}
    {rest : List Char} (h : reference? (methods.map String.toList) (c :: rest) = none) :
    linkReferences methods anchorPrefix target (c :: rest) =
      c :: linkReferences methods anchorPrefix target rest := by
  rw [linkReferences, pieces_char h, List.flatMap_cons]
  rfl

variable (hmethods : ∀ m ∈ methods, ∀ x ∈ m.toList, x ∉ special)
include hmethods

/-- What stands before the path of a reference holds nothing special. -/
theorem notMem_special_of_mem_opening {m : List Char} (hm : m ∈ methodsFor methods) {b : Char}
    (hb : Text.isBlank b = true) : ∀ x ∈ referenceOpening m b, x ∉ special := by
  intro x hx
  rw [referenceOpening, List.mem_append, List.mem_cons, List.mem_singleton] at hx
  rcases hx with hx | rfl | rfl
  · rw [methodsFor] at hm
    split at hm
    · rw [List.mem_singleton.1 hm] at hx
      cases hx
    · obtain ⟨k, hk, rfl⟩ := List.mem_map.1 hm
      exact hmethods k hk x hx
  · exact notMem_special_of_isBlank hb
  · decide

theorem reference?_some {s r : List Char}
    (h : reference? (methods.map String.toList) s = some r) :
    ∃ m b tail, (∀ x ∈ referenceOpening m b, x ∉ special) ∧
      s = referenceOpening m b ++ tail ∧ r = referenceOpening m b ++ path tail := by
  rw [reference?] at h
  obtain ⟨m, hm, h⟩ := List.exists_of_findSome?_eq_some h
  obtain ⟨b, tail, hb, -, hs, hr⟩ := referenceWith?_eq_some_iff.1 h
  exact ⟨m, b, tail, notMem_special_of_mem_opening hmethods hm hb, hs, hr⟩

/-- What linked text begins with, up to the first tag: the text itself, where no reference
starts. -/
theorem prefix_of_prefix_linkReferences {anchorPrefix : String} {target : String → String}
    {p s : List Char} (hp : '<' ∉ p) (h : p <+: linkReferences methods anchorPrefix target s) :
    p <+: s ∧ ∀ n < p.length, reference? (methods.map String.toList) (s.drop n) = none := by
  induction p generalizing s with
  | nil => exact ⟨List.nil_prefix, nofun⟩
  | cons c p ih =>
    rw [List.mem_cons, not_or] at hp
    cases s with
    | nil =>
      rw [linkReferences_nil] at h
      exact absurd (List.prefix_nil.1 h) (List.cons_ne_nil c p)
    | cons d rest =>
      cases href : reference? (methods.map String.toList) (d :: rest) with
      | some r =>
        obtain ⟨m, b, tail, -, hs, hr⟩ := reference?_some hmethods href
        obtain ⟨after, htail, -⟩ := path_spec tail
        have hne : r ≠ [] := by simp [hr, referenceOpening]
        have hwhole : d :: rest = r ++ after := by
          rw [hs, hr, List.append_assoc, ← htail]
        rw [hwhole] at h href
        rw [linkReferences_reference hne href, linkHtml_eq] at h
        exact absurd (List.cons_prefix_cons.1 h).1.symm hp.1
      | none =>
        rw [linkReferences_char href, List.cons_prefix_cons] at h
        obtain ⟨rfl, h⟩ := h
        obtain ⟨hbegins, hnone⟩ := ih hp.2 h
        refine ⟨List.cons_prefix_cons.2 ⟨rfl, hbegins⟩, fun n hn => ?_⟩
        cases n with
        | zero => exact href
        | succ n => exact hnone n (Nat.lt_of_succ_lt_succ hn)

section
variable {v : List Char} {x : Char} (hx : x ∈ special)
include hx

theorem referenceWith?_before {m r rest : List Char} (hm : m ∈ methodsFor methods)
    (h : referenceWith? m (v ++ x :: rest) = some r) :
    ∃ b w, Text.isBlank b = true ∧ v = referenceOpening m b ++ w ∧ path (w ++ x :: rest) ≠ [] := by
  obtain ⟨b, tail, hb, hpath, heq, -⟩ := referenceWith?_eq_some_iff.1 h
  have hnot : x ∉ referenceOpening m b := fun hmem =>
    notMem_special_of_mem_opening hmethods hm hb x hmem hx
  obtain ⟨w, rfl, rfl⟩ := Replacement.taken_of_append_eq hnot heq.symm
  exact ⟨b, w, hb, rfl, hpath⟩

/-- No reference starts before a special character where no blank has a slash after it. -/
theorem reference?_none_before (hv : ∀ b, [b, '/'] <:+: v → Text.isBlank b = false)
    (rest : List Char) : reference? (methods.map String.toList) (v ++ x :: rest) = none := by
  refine reference?_none_iff.2 fun m hm => ?_
  cases h : referenceWith? m (v ++ x :: rest) with
  | none => rfl
  | some r =>
    obtain ⟨b, w, hb, rfl, -⟩ := referenceWith?_before hmethods hx hm h
    have hslash : [b, '/'] <:+: referenceOpening m b ++ w := ⟨m, w, by simp [referenceOpening]⟩
    rw [hv b hslash] at hb
    cases hb

/-- Whether a reference starts before a special character does not depend on what comes after
that. -/
theorem reference?_none_congr {rest : List Char}
    (h : reference? (methods.map String.toList) (v ++ x :: rest) = none) (rest' : List Char) :
    reference? (methods.map String.toList) (v ++ x :: rest') = none := by
  refine reference?_none_iff.2 fun m hm => ?_
  cases h' : referenceWith? m (v ++ x :: rest') with
  | none => rfl
  | some r =>
    obtain ⟨b, w, hb, rfl, hpath⟩ := referenceWith?_before hmethods hx hm h'
    have hpath' : path (w ++ x :: rest) ≠ [] := by
      cases w with
      | nil =>
        have hblank : Text.isBlank x = false := by
          cases hblank : Text.isBlank x with
          | false => rfl
          | true => exact absurd hx (notMem_special_of_isBlank hblank)
        rw [List.nil_append, path_cons hblank]
        exact List.cons_ne_nil _ _
      | cons c w =>
        cases hc : Text.isBlank c with
        | true => exact absurd (path_cons_of_isBlank hc _) hpath
        | false =>
          rw [List.cons_append, path_cons hc]
          exact List.cons_ne_nil _ _
    have hnone := reference?_none_iff.1 h m hm
    rw [referenceWith?_eq_some_iff.2 ⟨b, _, hb, hpath', List.append_assoc _ _ _, rfl⟩] at hnone
    cases hnone

end
end

/-! ## References and labels -/

section
variable {c : RenderConfig} {word cssClass : String}

/-- The opening tag of a label without its last bracket. -/
def labelStart (cssClass : String) : List Char :=
  labelHead ++ (cssClass.toList ++ ['"'])

/-- A closing tag of a label without its last bracket. -/
def closingStart : List Char := "</span".toList

theorem labelOpening_eq_start (cssClass : String) :
    labelOpening cssClass = labelStart cssClass ++ ['>'] := by
  have hquote : "\">".toList = ['"', '>'] := by decide
  have hopening : labelOpening cssClass = labelHead ++ (cssClass.toList ++ ['"', '>']) :=
    (labelOpening_eq cssClass).trans
      (congrArg (fun q => labelHead ++ (cssClass.toList ++ q)) hquote)
  rw [hopening, labelStart, List.append_assoc, List.append_assoc]
  rfl

theorem labelTemplate_eq_start (word cssClass : String) :
    labelTemplate word cssClass =
      labelStart cssClass ++ '>' :: (word.toList ++ (closingStart ++ ['>'])) := by
  have hclosing : "</span>".toList = closingStart ++ ['>'] := by decide
  rw [labelTemplate_eq, labelOpening_eq_start, hclosing, List.append_assoc]
  rfl

theorem notMem_labelStart {x : Char} (hhead : x ∉ labelHead) (hclass : x ∉ cssClass.toList)
    (hquote : x ≠ '"') : x ∉ labelStart cssClass := by
  simp [labelStart, hhead, hclass, hquote]

theorem slash_notMem_labelStart (hset : PlainSetting c cssClass) : '/' ∉ labelStart cssClass :=
  notMem_labelStart (by decide) (fun hmem => (hset.cssClass _ hmem).2.2 rfl) (by decide)

theorem isBlank_before_slash {b : Char} (h : [b, '/'] <:+: closingStart) :
    Text.isBlank b = false := by
  have hchars : closingStart = ['<', '/', 's', 'p', 'a', 'n'] := by decide
  rw [hchars] at h
  obtain rfl : b = '<' := by simpa [List.infix_cons_iff, List.cons_prefix_cons] using h
  decide

theorem reference?_enclosed {methods : List String} {w : List Char}
    (hmethods : ∀ m ∈ methods, ∀ x ∈ m.toList, x ∉ special) (hword : Unlinked methods w) {k : Nat}
    (hk : k < (w ++ (closingStart ++ ['>'])).length) (t : List Char) :
    reference? (methods.map String.toList) ((w ++ (closingStart ++ ['>'])).drop k ++ t) = none := by
  rcases Nat.lt_or_ge k w.length with hlt | hle
  · have hnone := hword k hlt
    rw [List.drop_append_of_le_length (Nat.le_of_lt hlt), List.append_assoc]
    exact reference?_none_congr hmethods (by decide) hnone _
  · obtain ⟨j, rfl⟩ := Nat.exists_eq_add_of_le hle
    have hj : j ≤ closingStart.length := by
      rw [List.length_append, List.length_append, List.length_singleton] at hk
      omega
    rw [List.drop_length_add_append, List.drop_append_of_le_length hj, List.append_assoc]
    refine reference?_none_before hmethods (by decide) (fun b hb => ?_) _
    exact isBlank_before_slash (hb.trans (List.drop_suffix j _).isInfix)

theorem reference?_labelOpening (hset : PlainSetting c cssClass) {n : Nat}
    (hn : n < (labelOpening cssClass).length) (t : List Char) :
    reference? (c.routeMethods.map String.toList)
      ((labelOpening cssClass).drop n ++ t) = none := by
  rw [labelOpening_eq_start] at hn ⊢
  have hle : n ≤ (labelStart cssClass).length := by
    rw [List.length_append, List.length_singleton] at hn
    omega
  rw [List.drop_append_of_le_length hle, List.append_assoc]
  refine reference?_none_before hset.methods (by decide) (fun b hb => ?_) _
  have hmem : '/' ∈ (labelStart cssClass).drop n := hb.subset (by simp)
  exact absurd (List.mem_of_mem_drop hmem) (slash_notMem_labelStart hset)

theorem reference?_label (hset : PlainSetting c cssClass)
    (hword : Unlinked c.routeMethods word.toList) {n : Nat}
    (hn : n < (labelTemplate word cssClass).length) (t : List Char) :
    reference? (c.routeMethods.map String.toList)
      ((labelTemplate word cssClass).drop n ++ t) = none := by
  have hclosing : "</span>".toList = closingStart ++ ['>'] := by decide
  rw [labelTemplate_eq, hclosing] at hn ⊢
  rcases Nat.lt_or_ge n (labelOpening cssClass).length with hlt | hle
  · rw [List.drop_append_of_le_length (Nat.le_of_lt hlt), List.append_assoc]
    exact reference?_labelOpening hset hlt _
  · obtain ⟨k, rfl⟩ := Nat.exists_eq_add_of_le hle
    rw [List.length_append] at hn
    rw [List.drop_length_add_append]
    exact reference?_enclosed hset.methods hword (by omega) t

/-! ## Labels in linked text -/

/-- A label after its first character, up to its closing tag. -/
def labelInner (word cssClass : String) : List Char :=
  (labelStart cssClass).tail ++ '>' :: word.toList

theorem labelTemplate_eq_inner (word cssClass : String) :
    labelTemplate word cssClass =
      '<' :: (labelInner word cssClass ++ '<' :: '/' :: "span>".toList) := by
  have hhead : labelStart cssClass = '<' :: (labelStart cssClass).tail := rfl
  have hclosing : closingStart ++ ['>'] = '<' :: '/' :: "span>".toList := by decide
  rw [labelTemplate_eq_start, labelInner, hclosing, hhead, List.append_assoc]
  rfl

theorem head?_labelTemplate (word cssClass : String) :
    (labelTemplate word cssClass).head? = some '<' := by
  rw [labelTemplate_eq_inner]
  rfl

theorem notMem_labelInner (hset : PlainSetting c cssClass) (hword : '<' ∉ word.toList) :
    '<' ∉ labelInner word cssClass := by
  have htail : (labelStart cssClass).tail = labelHead.tail ++ (cssClass.toList ++ ['"']) :=
    List.tail_append_of_ne_nil (by decide)
  rw [labelInner, htail]
  intro hmem
  rcases List.mem_append.1 hmem with hmem | hmem
  · rcases List.mem_append.1 hmem with hmem | hmem
    · exact absurd hmem (by decide)
    · rcases List.mem_append.1 hmem with hmem | hmem
      · exact (hset.cssClass _ hmem).1 (by decide)
      · exact absurd hmem (by decide)
  · rcases List.mem_cons.1 hmem with heq | hmem
    · exact absurd heq (by decide)
    · exact hword hmem

/-- Two texts with the same character after them, which neither holds. -/
theorem eq_of_append_stop {u v s t : List Char} {x : Char} (hu : x ∉ u) (hv : x ∉ v)
    (h : u ++ x :: s = v ++ x :: t) : u = v ∧ s = t := by
  obtain ⟨w, rfl, hw⟩ := Replacement.taken_of_append_eq hu h
  cases w with
  | nil => exact ⟨(List.append_nil u).symm, (List.cons.inj hw).2⟩
  | cons y w =>
    obtain ⟨rfl, -⟩ := List.cons.inj hw
    exact absurd (by simp) hv

theorem LabelsEnclose.label {page : List Char} (hset : PlainSetting c cssClass)
    (hword : '<' ∉ word.toList) (h : LabelsEnclose word.toList page) :
    LabelsEnclose word.toList (labelTemplate word cssClass ++ page) := by
  have hinner : LabelsEnclose word.toList
      (labelInner word cssClass ++ '<' :: '/' :: ("span>".toList ++ page)) :=
    (h.closing (by decide)).plain (notMem_labelInner hset hword)
  intro before k after heq hk
  cases before with
  | nil =>
    have hquote : "\">".toList = '"' :: ['>'] := by decide
    have hclosing : "</span>".toList = closingStart ++ ['>'] := by decide
    have hcls : '"' ∉ cssClass.toList := fun hmem => (hset.cssClass _ hmem).1 (by decide)
    have hwhole : labelTemplate word cssClass ++ page =
        labelHead ++ (cssClass.toList ++
          '"' :: '>' :: (word.toList ++ ((closingStart ++ ['>']) ++ page))) := by
      rw [labelTemplate_eq_start, labelStart]
      simp only [List.append_assoc, List.cons_append, List.nil_append]
    rw [hwhole, hquote, List.nil_append] at heq
    obtain ⟨-, hafter⟩ := eq_of_append_stop hcls hk (List.append_cancel_left heq)
    refine ⟨page, ?_⟩
    rw [hclosing, List.append_assoc]
    exact (List.cons.inj hafter).2
  | cons d before =>
    have hwhole : labelTemplate word cssClass ++ page =
        '<' :: (labelInner word cssClass ++ '<' :: '/' :: ("span>".toList ++ page)) := by
      rw [labelTemplate_eq_inner, List.cons_append, List.append_assoc]
      rfl
    rw [hwhole] at heq
    exact hinner before k after (List.cons.inj heq).2 hk

/-- What a path takes of page text: characters outside of the labels, and of a label no more than
the name of its tag. -/
theorem Blocks.path {m : List Char} (h : Blocks (labelTemplate word cssClass) m) :
    ∃ q rest, '<' ∉ q ∧ Blocks (labelTemplate word cssClass) rest ∧
      (path m = q ∧ m = q ++ rest ∨
        path m = q ++ "<span".toList ∧ m = q ++ (labelTemplate word cssClass ++ rest)) := by
  induction h with
  | nil => exact ⟨[], [], List.not_mem_nil, .nil, .inl ⟨rfl, rfl⟩⟩
  | @char c m hc hm ih =>
    cases hblank : Text.isBlank c with
    | true =>
      exact ⟨[], c :: m, List.not_mem_nil, .char hc hm, .inl ⟨path_cons_of_isBlank hblank m, rfl⟩⟩
    | false =>
      obtain ⟨q, rest, hq, hrest, hpath⟩ := ih
      have hq' : '<' ∉ c :: q := by
        rw [List.mem_cons, not_or]
        exact ⟨Ne.symm hc, hq⟩
      refine ⟨c :: q, rest, hq', hrest, ?_⟩
      rw [path_cons hblank]
      exact hpath.imp (fun ⟨hp, hm⟩ => ⟨congrArg (c :: ·) hp, congrArg (c :: ·) hm⟩)
        (fun ⟨hp, hm⟩ => ⟨congrArg (c :: ·) hp, congrArg (c :: ·) hm⟩)
  | @label m hm ih =>
    exact ⟨[], m, List.not_mem_nil, hm, .inr ⟨path_labelTemplate word cssClass m, rfl⟩⟩

/-! ## Links and labels -/

/-- What is left of a label where a path has taken the name of its tag. -/
def labelRemains (word cssClass : String) : List Char :=
  (labelTemplate word cssClass).drop 5

theorem labelTemplate_eq_remains (word cssClass : String) :
    labelTemplate word cssClass = "<span".toList ++ labelRemains word cssClass := by
  have htake : (labelTemplate word cssClass).take 5 = "<span".toList := by
    rw [labelTemplate_eq, labelOpening_eq]
    rfl
  rw [labelRemains, ← htake, List.take_append_drop]

theorem reference?_labelRemains (hset : PlainSetting c cssClass)
    (hword : Unlinked c.routeMethods word.toList) {n : Nat}
    (hn : n < (labelRemains word cssClass).length) (t : List Char) :
    reference? (c.routeMethods.map String.toList)
      ((labelRemains word cssClass).drop n ++ t) = none := by
  rw [labelRemains, List.length_drop] at hn
  rw [labelRemains, List.drop_drop]
  exact reference?_label hset hword (by omega) t

theorem labelRemains_eq_inner (word cssClass : String) :
    labelRemains word cssClass =
      (labelInner word cssClass).drop 4 ++ '<' :: '/' :: "span>".toList := by
  have hlength : 4 ≤ (labelInner word cssClass).length := by
    have hhead : labelHead.length = 19 := by decide
    rw [labelInner, labelStart, List.length_append, List.length_tail, List.length_append]
    omega
  rw [labelRemains, labelTemplate_eq_inner, List.drop_succ_cons,
    List.drop_append_of_le_length hlength]

namespace LabelsEnclose

variable {w page r : List Char} {address : String}

/-- A link that holds what is left of a page up to its closing tag. -/
theorem opening (haddress : '<' ∉ address.toList)
    (h : LabelsEnclose w (r ++ '<' :: '/' :: ("a>".toList ++ page))) :
    LabelsEnclose w (linkHtml address r ++ page) := by
  have hwhole : linkHtml address r ++ page =
      '<' :: 'a' :: (" href=\"".toList ++ (address.toList ++ ("\">".toList ++
        (r ++ '<' :: '/' :: ("a>".toList ++ page))))) := by
    have hopening : "<a href=\"".toList = '<' :: 'a' :: " href=\"".toList := by decide
    have hclosing : "</a>".toList = '<' :: '/' :: "a>".toList := by decide
    rw [linkHtml_eq, hopening, hclosing]
    simp only [List.append_assoc, List.cons_append]
  have hhref := ((h.plain (u := "\">".toList) (by decide)).plain haddress).plain
    (u := 'a' :: " href=\"".toList) (by decide)
  rw [hwhole]
  exact .tag (by decide) hhref

/-- A link to a reference with no tag in it. -/
theorem link (haddress : '<' ∉ address.toList) (hr : '<' ∉ r) (h : LabelsEnclose w page) :
    LabelsEnclose w (linkHtml address r ++ page) :=
  .opening haddress (.plain hr (.closing (by decide) h))

theorem cut (hset : PlainSetting c cssClass) (hword : '<' ∉ word.toList)
    (haddress : '<' ∉ address.toList) (hr : '<' ∉ r) (h : LabelsEnclose w page) :
    LabelsEnclose w
      (linkHtml address (r ++ "<span".toList) ++ (labelRemains word cssClass ++ page)) := by
  have hremains : LabelsEnclose w (labelRemains word cssClass ++ page) := by
    rw [labelRemains_eq_inner, List.append_assoc]
    refine .plain (fun hmem => ?_) (.closing (u := "span>".toList) (by decide) h)
    exact notMem_labelInner hset hword (List.mem_of_mem_drop hmem)
  have hspan : LabelsEnclose w ('<' :: ("span".toList ++ '<' :: '/' :: ("a>".toList ++
      (labelRemains word cssClass ++ page)))) := by
    have hhead : labelHead = '<' :: 's' :: 'p' :: 'a' :: 'n' :: ' ' :: labelHead.drop 6 := rfl
    have hname : "span".toList = ['s', 'p', 'a', 'n'] := by decide
    refine .cons ?_ (.plain (by decide) (.closing (by decide) hremains))
    rw [hhead, hname]
    simp [List.cons_prefix_cons]
  have hname : "<span".toList = '<' :: "span".toList := by decide
  refine .opening haddress ?_
  rw [hname, List.append_assoc]
  exact .plain hr hspan

end LabelsEnclose

/-- Where page text starts with a reference, it is linked to a link and to what the text behind the
reference is linked to. -/
theorem labelsEnclose_of_reference {target : String → String} (hset : PlainSetting c cssClass)
    (hword : '<' ∉ word.toList) (hunlinked : Unlinked c.routeMethods word.toList)
    (haddress : ∀ s, '<' ∉ (c.anchorPrefix ++ target s).toList) {m r : List Char}
    (h : Blocks (labelTemplate word cssClass) m)
    (href : reference? (c.routeMethods.map String.toList) m = some r)
    (hbehind : ∀ rest : List Char, rest.length < m.length →
      Blocks (labelTemplate word cssClass) rest →
        LabelsEnclose word.toList (linkReferences c.routeMethods c.anchorPrefix target rest)) :
    LabelsEnclose word.toList (linkReferences c.routeMethods c.anchorPrefix target m) := by
  obtain ⟨k, b, tail, hopening, rfl, rfl⟩ := reference?_some hset.methods href
  have hplain : '<' ∉ referenceOpening k b := fun hmem => hopening _ hmem (by decide)
  have hne : ∀ q, referenceOpening k b ++ q ≠ [] := by simp [referenceOpening]
  obtain ⟨q, rest, hq, hrest, hpath⟩ :=
    (h.of_append (head?_labelTemplate word cssClass) hplain).path
  have hr : '<' ∉ referenceOpening k b ++ q := by
    rw [List.mem_append, not_or]
    exact ⟨hplain, hq⟩
  have hpos := List.length_pos_iff.2 (hne [])
  have hshort : rest.length < (referenceOpening k b ++ tail).length := by
    rw [List.append_nil] at hpos
    rw [List.length_append]
    rcases hpath with ⟨-, rfl⟩ | ⟨-, rfl⟩
    · rw [List.length_append]
      omega
    · rw [List.length_append, List.length_append]
      omega
  have hlinked := hbehind rest hshort hrest
  rcases hpath with ⟨hpath, rfl⟩ | ⟨hpath, rfl⟩
  · rw [hpath, ← List.append_assoc] at href
    rw [← List.append_assoc, linkReferences_reference (hne q) href]
    exact .link (haddress _) hr hlinked
  · -- the reference takes the name of the label's tag
    have hremains := fun n hn => reference?_labelRemains hset hunlinked (n := n) hn rest
    have hwhole : referenceOpening k b ++ (q ++ (labelTemplate word cssClass ++ rest)) =
        referenceOpening k b ++ (q ++ "<span".toList) ++
          (labelRemains word cssClass ++ rest) := by
      rw [labelTemplate_eq_remains]
      simp only [List.append_assoc]
    rw [hpath, hwhole] at href
    rw [hwhole, linkReferences_reference (hne _) href, linkReferences_append hremains,
      ← List.append_assoc (referenceOpening k b) q]
    exact .cut hset hword (haddress _) hr hlinked

/-- Labels in linked page text enclose their word, those that are whole. -/
theorem labelsEnclose_linked {target : String → String} (hset : PlainSetting c cssClass)
    (hword : '<' ∉ word.toList) (hunlinked : Unlinked c.routeMethods word.toList)
    (haddress : ∀ s, '<' ∉ (c.anchorPrefix ++ target s).toList) {m : List Char}
    (h : Blocks (labelTemplate word cssClass) m) :
    LabelsEnclose word.toList (linkReferences c.routeMethods c.anchorPrefix target m) := by
  -- by length, since a reference may take a part of a label
  induction hlength : m.length using Nat.strongRecOn generalizing m with | _ n ih
  subst hlength
  cases href : reference? (c.routeMethods.map String.toList) m with
  | some r =>
    exact labelsEnclose_of_reference hset hword hunlinked haddress h href fun rest hshort hrest =>
      ih _ hshort hrest rfl
  | none =>
    cases h with
    | nil =>
      rw [linkReferences_nil]
      exact .nil
    | @char d m hd hm =>
      rw [linkReferences_char href]
      refine .plain (u := [d]) ?_ (ih _ (Nat.lt_succ_self _) hm rfl)
      simpa using Ne.symm hd
    | @label m hm =>
      have hshort : m.length < (labelTemplate word cssClass ++ m).length := by
        rw [labelTemplate_eq_inner, List.cons_append, List.length_cons, List.length_append]
        omega
      rw [linkReferences_append fun n hn => reference?_label hset hunlinked hn m]
      exact .label hset hword (ih _ hshort hm rfl)

/-! ## The template of a label -/

theorem backslash_notMem_labelOpening (hset : PlainSetting c cssClass) :
    '\\' ∉ labelOpening cssClass := by
  rw [labelOpening_eq_start, List.mem_append, not_or]
  exact ⟨notMem_labelStart (by decide) (fun hmem => (hset.cssClass _ hmem).2.1 rfl) (by decide),
    by decide⟩

/-- What the template of a label comes to: the word in it may come to another text. -/
theorem parts_label (hset : PlainSetting c cssClass) (hword : '<' ∉ word.toList)
    {ps : List ReplacementPart} (h : parts (labelTemplate word cssClass) = .ok ps) :
    ∃ y, Spoken word.toList y ∧
      ps = (labelOpening cssClass ++ (y ++ "</span>".toList)).map .char := by
  have hclosing : "</span>".toList = '<' :: "/span>".toList := by decide
  have hgroup : ∀ name t, '<' :: "/span>".toList = '<' :: (name ++ '>' :: t) →
      ∀ p, Replacement.group name ≠ .ok p := by
    intro name t heq
    have hname : "/span>".toList = "/span".toList ++ '>' :: [] := by decide
    rw [hname] at heq
    obtain ⟨w, rfl, hw⟩ := Replacement.taken_of_append_eq (by decide) (List.cons.inj heq).2
    obtain rfl : w = [] := by
      have hlength := congrArg List.length hw
      rw [List.length_singleton, List.length_append, List.length_cons] at hlength
      exact List.eq_nil_of_length_eq_zero (by omega)
    have hfails : (Replacement.group "/span".toList).toOption = none := by decide
    intro p hp
    rw [List.append_nil] at hp
    rw [hp] at hfails
    cases hfails
  rw [labelTemplate_eq, hclosing] at h
  rw [hclosing]
  exact Replacement.spoken_between (backslash_notMem_labelOpening hset) (by decide) (by decide)
    (by decide) hgroup hword h

theorem parts_label_of_literal (hset : PlainSetting c cssClass) (hword : Literal word.toList) :
    parts (labelTemplate word cssClass) = .ok ((labelTemplate word cssClass).map .char) := by
  have hclosing : "</span>".toList = '<' :: "/span>".toList := by decide
  rw [labelTemplate_eq, hclosing]
  exact Replacement.parts_between (backslash_notMem_labelOpening hset) (by decide) (by decide)
    (by decide) hword

/-! ## Labels in a text -/

theorem text_of_one_marker {r : Renderer} (hmarkers : r.config.markers = [(word, cssClass)])
    {s h : String} :
    r.text s = .ok h ↔ ∃ ps, parts (labelTemplate word cssClass) = .ok ps ∧
      h.toList = linkReferences r.config.routeMethods r.config.anchorPrefix r.target
        (markWord word.toList ps 0 (escapeChars true s.toList)) := by
  rw [Renderer.text, hmarkers, markAll]
  cases parts (labelTemplate word cssClass) with
  | error f =>
    constructor
    · intro h
      cases h
    · rintro ⟨ps, hps, -⟩
      cases hps
  | ok ps =>
    constructor
    · intro h
      cases h
      exact ⟨ps, rfl, String.toList_ofList⟩
    · rintro ⟨ps, hps, hh⟩
      cases hps
      rw [← String.ofList_toList (s := h), hh]
      rfl

theorem notMem_address {r : Renderer} (hset : PlainSetting r.config cssClass) (s : String) :
    '<' ∉ (r.config.anchorPrefix ++ r.target s).toList := by
  intro hmem
  rw [String.toList_append, List.mem_append] at hmem
  rcases hmem with hmem | hmem
  · exact hset.anchorPrefix hmem
  · exact notMem_special_of_isAllowed (Identifier.isAllowed_of_mem_normalize hmem) (by decide)

/-- What a word comes to in a template is the word, if the word stands there up to the closing
tag. -/
theorem eq_of_isPrefix_closing {w y : List Char} (hw : '<' ∉ w) (hy : Spoken w y)
    (h : w <+: y ++ "</span>".toList) : w = y := by
  have hclosing : "</span>".toList = '<' :: "/span>".toList := by decide
  obtain ⟨t, ht⟩ := h
  rw [hclosing] at ht
  obtain ⟨v, hv, -⟩ := Replacement.taken_of_append_eq hw ht
  have hlength := hy.length_le
  rw [hv, List.length_append] at hlength
  obtain rfl : v = [] := List.eq_nil_of_length_eq_zero (by omega)
  rw [hv, List.append_nil]

/-- With one marker word, every text is shown with labels that enclose exactly that word, exactly if
the word is literal and no reference starts in it. -/
theorem labelsEnclose_iff {r : Renderer} (hmarkers : r.config.markers = [(word, cssClass)])
    (hset : PlainSetting r.config cssClass) (hne : word ≠ "")
    (hword : ∀ x ∈ word.toList, x ∉ special) :
    (∀ s, ∃ h, r.text s = .ok h ∧ LabelsEnclose word.toList h.toList) ↔
      Literal word.toList ∧ Unlinked r.config.routeMethods word.toList := by
  have hne' : word.toList ≠ [] := fun h => hne (String.toList_eq_nil_iff.1 h)
  have hlt : '<' ∉ word.toList := fun hmem => hword _ hmem (by decide)
  constructor
  · intro hall
    obtain ⟨h, htext, henclose⟩ := hall word
    obtain ⟨ps, hps, hh⟩ := (text_of_one_marker hmarkers).1 htext
    obtain ⟨y, hy, rfl⟩ := parts_label hset hlt hps
    rw [escapeChars_of_plain hword, markWord_self hne',
      linkReferences_append fun n hn => reference?_labelOpening hset hn _] at hh
    have hhead : h.toList = [] ++ (labelHead ++ (cssClass.toList ++ ("\">".toList ++
        linkReferences r.config.routeMethods r.config.anchorPrefix r.target
          (y ++ "</span>".toList)))) := by
      rw [hh, labelOpening_eq, List.append_assoc, List.append_assoc]
      rfl
    have hafter := henclose [] cssClass.toList _ hhead fun hmem =>
      (hset.cssClass _ hmem).1 (by decide)
    obtain ⟨hbegins, hnone⟩ := prefix_of_prefix_linkReferences hset.methods hlt
      ((List.prefix_append _ _).trans hafter)
    -- the word comes to no more than itself
    rw [← eq_of_isPrefix_closing hlt hy hbegins] at hnone hy
    refine ⟨hy.literal_of_length (Nat.le_refl _), fun n hn => ?_⟩
    have hreference := hnone n hn
    rwa [List.drop_append_of_le_length (Nat.le_of_lt hn)] at hreference
  · rintro ⟨hliteral, hunlinked⟩ s
    refine ⟨_, (text_of_one_marker hmarkers (h := String.ofList _)).2
      ⟨_, parts_label_of_literal hset hliteral, String.toList_ofList⟩, ?_⟩
    rw [String.toList_ofList]
    refine labelsEnclose_linked hset hlt hunlinked (notMem_address hset) (blocks_markWord hne' _ ?_)
    exact notMem_escapeChars (by decide) (by decide) _

end
end RouteDocs.Html
