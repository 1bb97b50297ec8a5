import RouteDocs.Proofs.DefinitionList.Merge
import RouteDocs.Styling

/-!
# What all elements of a tree pass

Merging moves elements about and writes the markers of terms anew, and styling
puts classes among the HTML attributes of lists. So a test of the name and the
attributes of an element that all elements pass before, all pass after: after
merging in any case, after styling if it does not look at HTML attributes.

Results:
* `every_mergeList`: what all elements of two lists pass, all elements of their merge pass.
* `styleNode_element`: what styling makes of an element.
* `everyAll_styleNodes`: what all elements pass, all pass when styled.
* `forall_styleNodes`: what all nodes of a row satisfy, all satisfy when styled.
-/
namespace RouteDocs

namespace Node

mutual

/-- All elements of a tree pass a test of their name and attributes. -/
def every (test : String → Attributes → Bool) : Node → Bool
  | .text _ => true
  | .element name as cs => test name as && everyAll test cs

/-- All elements of each of the trees pass a test of their name and attributes. -/
def everyAll (test : String → Attributes → Bool) : List Node → Bool
  | [] => true
  | n :: rest => every test n && everyAll test rest

end

variable {test : String → Attributes → Bool}

theorem every_element {name : String} {as : Attributes} {cs : List Node} :
    every test (.element name as cs) = true ↔ test name as = true ∧ everyAll test cs = true := by
  rw [every, Bool.and_eq_true]

theorem everyAll_iff {ns : List Node} :
    everyAll test ns = true ↔ ∀ n ∈ ns, every test n = true := by
  induction ns with
  | nil => exact iff_of_true rfl nofun
  | cons n rest ih => rw [everyAll, Bool.and_eq_true, ih, List.forall_mem_cons]

mutual

/-- What passes a test passes a weaker one. -/
theorem every_mono {test' : String → Attributes → Bool}
    (h : ∀ name as, test name as = true → test' name as = true) :
    ∀ n : Node, every test n = true → every test' n = true
  | .text _, _ => rfl
  | .element name as cs, hn =>
    have ⟨has, hcs⟩ := every_element.1 hn
    every_element.2 ⟨h name as has, everyAll_mono h cs hcs⟩

theorem everyAll_mono {test' : String → Attributes → Bool}
    (h : ∀ name as, test name as = true → test' name as = true) :
    ∀ ns : List Node, everyAll test ns = true → everyAll test' ns = true
  | [], _ => rfl
  | n :: rest, hns => by
    rw [everyAll, Bool.and_eq_true] at hns ⊢
    exact ⟨every_mono h n hns.1, everyAll_mono h rest hns.2⟩

end

/-- Whether all values among the attributes of an element can be written. -/
def writable (_name : String) (as : Attributes) : Bool :=
  (Value.mapping as).isWritable

theorem every_withChildren {n : Node} (h : every test n = true) {cs : List Node}
    (hcs : everyAll test cs = true) : every test (n.withChildren cs) = true := by
  cases n with
  | text s => rfl
  | element name as _ => exact every_element.2 ⟨(every_element.1 h).1, hcs⟩

theorem everyAll_children {n : Node} (h : every test n = true) :
    everyAll test n.children = true := by
  cases n with
  | text s => rfl
  | element name as cs => exact (every_element.1 h).2

end Node

/-! ## Merging -/

namespace DefinitionList

open Node (every everyAll everyAll_iff)

variable {test : String → Attributes → Bool}

structure TermPasses (test : String → Attributes → Bool) (p : TermPair) : Prop where
  marker : test Kind.term.name p.attributes = true
  label : everyAll test p.label = true
  definition : everyAll test p.definition = true

theorem termPasses_of_mem {children : List Node} (h : everyAll test children = true) {p : TermPair}
    (hp : p ∈ termPairs children) : TermPasses test p := by
  have hall : ∀ n ∈ p.nodes, every test n = true := fun n hn =>
    everyAll_iff.1 h n (mem_of_mem_nodes hp hn)
  obtain ⟨hmarker, hlabel⟩ := Node.every_element.1 (hall p.marker List.mem_cons_self)
  exact ⟨hmarker, hlabel, everyAll_iff.2 fun n hn => hall n (List.mem_cons_of_mem _ hn)⟩

theorem termPasses_of_byTerm {children : List Node} (h : everyAll test children = true) {t : String}
    {p : TermPair} (hp : (t, p) ∈ byTerm children) : TermPasses test p :=
  termPasses_of_mem h (mem_termPairs_of_byTerm (Entries.get?_of_mem (Entries.nodup_ofPairs _) hp))

theorem TermPasses.nodes {p : TermPair} (h : TermPasses test p) :
    ∀ n ∈ p.nodes, every test n = true := by
  intro n hn
  rcases List.mem_cons.1 hn with rfl | hn
  · exact Node.every_element.2 ⟨h.marker, h.label⟩
  · exact everyAll_iff.1 h.definition n hn

theorem everyAll_firstList? {ns cs : List Node} (h : everyAll test ns = true)
    (hcs : firstList? ns = some cs) : everyAll test cs = true := by
  induction ns with
  | nil => cases hcs
  | cons n rest ih =>
    rw [everyAll, Bool.and_eq_true] at h
    rw [firstList?] at hcs
    split at hcs
    · obtain rfl := Option.some.inj hcs
      exact Node.everyAll_children h.1
    · exact ih h.2 hcs

theorem everyAll_mapFirstList {f : List Node → List Node}
    (hf : ∀ cs, everyAll test cs = true → everyAll test (f cs) = true) {ns : List Node}
    (h : everyAll test ns = true) : everyAll test (mapFirstList f ns) = true := by
  induction ns with
  | nil => rfl
  | cons n rest ih =>
    rw [everyAll, Bool.and_eq_true] at h
    rw [mapFirstList]
    split
    · rw [everyAll, Bool.and_eq_true]
      exact ⟨Node.every_withChildren h.1 (hf _ (Node.everyAll_children h.1)), h.2⟩
    · rw [everyAll, Bool.and_eq_true]
      exact ⟨h.1, ih h.2⟩

theorem everyAll_merge {source : List Node} (hs : everyAll test source = true) {dest : List Node}
    (hd : everyAll test dest = true) : everyAll test (merge source dest) = true := by
  induction source using nested_induction generalizing dest with
  | step source ih =>
    rw [everyAll_iff, merge_eq_inOrder]
    intro n hn
    obtain ⟨⟨t, p⟩, hp, hn⟩ := List.mem_flatMap.1 hn
    refine TermPasses.nodes ?_ n hn
    rcases List.mem_append.1 (List.mem_mergeSort.1 hp) with hp | hp
    · obtain ⟨⟨t', q⟩, hq, heq⟩ := List.mem_map.1 hp
      obtain ⟨rfl, rfl⟩ := Prod.mk.inj heq
      have hown := termPasses_of_byTerm hd hq
      rw [get?_byTerm]
      cases hlent : lastTerm? source t' with
      | none => exact hown
      | some lent =>
        have hlentPasses := termPasses_of_mem hs (mem_of_lastTerm? hlent).1
        cases hinner : firstList? lent.definition with
        | none =>
          rw [absorb_some, hinner]
          exact hown
        | some inner =>
          rw [definition_absorb hinner]
          have hinnerPasses := everyAll_firstList? hlentPasses.definition hinner
          exact ⟨hown.marker, hown.label, everyAll_mapFirstList
            (fun cs hcs => ih t' lent inner hlent hinner hinnerPasses hcs) hown.definition⟩
    · exact termPasses_of_byTerm hs (List.mem_filter.1 hp).1

/-- What all elements of two lists pass, all elements of their merge pass. -/
theorem every_mergeList {source dest : Node} (hs : every test source = true)
    (hd : every test dest = true) : every test (source.mergeList dest) = true :=
  Node.every_withChildren hd
    (everyAll_merge (Node.everyAll_children hs) (Node.everyAll_children hd))

end DefinitionList

/-! ## Styling -/

namespace Styling

open Node (every everyAll)

theorem putClass?_eq_some {as as' : Attributes} {c : String} (h : putClass? as c = some as') :
    ∃ html, as' =
      Entries.put as htmlAttributesKey (.mapping (Entries.put html "class" (.text c))) := by
  unfold putClass? at h
  split at h
  · exact ⟨[], (Option.some.inj h).symm⟩
  · exact ⟨_, (Option.some.inj h).symm⟩
  · cases h

/-- Styling leaves an element as it is, or gives a list a class and styles its children. -/
theorem styleNode_element (classes : Entries String String) (c : Option String) (name : String)
    (as : Attributes) (cs : List Node) :
    (styleNode classes c (.element name as cs)).1 = .element name as cs ∨
      ∃ given as', Kind.ofName? name = some .definitionList ∧ putClass? as given = some as' ∧
        (styleNode classes c (.element name as cs)).1 =
          .element name as' (styleNodes classes c cs).1 := by
  rw [styleNode]
  split
  · rename_i given hkind _
    split
    · exact .inl rfl
    · rename_i as' hput
      exact .inr ⟨given, as', hkind, hput, rfl⟩
  · exact .inl rfl

theorem styleNodes_cons (classes : Entries String String) (c : Option String) (n : Node)
    (rest : List Node) :
    (styleNodes classes c (n :: rest)).1 = (styleNode classes c n).1 :: rest ∨
      (styleNodes classes c (n :: rest)).1 =
        (styleNode classes c n).1 :: (styleNodes classes (classAfter classes c n) rest).1 := by
  rw [styleNodes]
  split
  · rename_i heq
    exact .inl (by rw [heq])
  · rename_i heq
    exact .inr (by rw [heq])

/-- What all nodes of a row satisfy, all satisfy when styled, if styling one keeps it. -/
theorem forall_styleNodes {P : Node → Prop} {classes : Entries String String}
    (hP : ∀ c n, P n → P (styleNode classes c n).1) {ns : List Node} (h : ∀ n ∈ ns, P n)
    (c : Option String) : ∀ n ∈ (styleNodes classes c ns).1, P n := by
  induction ns generalizing c with
  | nil => exact nofun
  | cons n rest ih =>
    obtain ⟨hn, hrest⟩ := List.forall_mem_cons.1 h
    rcases styleNodes_cons classes c n rest with hstyled | hstyled
    · rw [hstyled]
      exact List.forall_mem_cons.2 ⟨hP c n hn, hrest⟩
    · rw [hstyled]
      exact List.forall_mem_cons.2 ⟨hP c n hn, ih hrest _⟩

/-- A test that attributes pass with a class, if they passed it without. -/
def KeepsClasses (test : String → Attributes → Bool) : Prop :=
  ∀ name as c as', test name as = true → putClass? as c = some as' → test name as' = true

mutual

/-- What all elements pass, with a class too, all pass when styled. -/
theorem every_styleNode_of_keeps {test : String → Attributes → Bool} (htest : KeepsClasses test)
    (classes : Entries String String) (c : Option String) : ∀ n : Node,
    every test n = true → every test (styleNode classes c n).1 = true
  | .text s, _ => rfl
  | .element name as cs, h => by
    obtain ⟨has, hcs⟩ := Node.every_element.1 h
    rcases styleNode_element classes c name as cs with hsame | ⟨given, as', -, hput, hstyled⟩
    · rw [hsame]
      exact h
    · rw [hstyled]
      refine Node.every_element.2 ⟨htest name as _ _ has hput, ?_⟩
      exact everyAll_styleNodes_of_keeps htest classes c cs hcs

theorem everyAll_styleNodes_of_keeps {test : String → Attributes → Bool} (htest : KeepsClasses test)
    (classes : Entries String String) (c : Option String) : ∀ ns : List Node,
    everyAll test ns = true → everyAll test (styleNodes classes c ns).1 = true
  | [], _ => rfl
  | n :: rest, h => by
    rw [everyAll, Bool.and_eq_true] at h
    have hn := every_styleNode_of_keeps htest classes c n h.1
    rcases styleNodes_cons classes c n rest with hstyled | hstyled
    · rw [hstyled, everyAll, Bool.and_eq_true]
      exact ⟨hn, h.2⟩
    · rw [hstyled, everyAll, Bool.and_eq_true]
      exact ⟨hn, everyAll_styleNodes_of_keeps htest classes _ rest h.2⟩

end

def IgnoresHtml (test : String → Attributes → Bool) : Prop :=
  ∀ name as v, test name (Entries.put as htmlAttributesKey v) = test name as

theorem IgnoresHtml.keepsClasses {test : String → Attributes → Bool} (h : IgnoresHtml test) :
    KeepsClasses test := by
  intro name as c as' has hput
  obtain ⟨html, rfl⟩ := putClass?_eq_some hput
  exact (h name as _).trans has

/-- What all elements pass, all pass when styled. -/
theorem every_styleNode {test : String → Attributes → Bool} (htest : IgnoresHtml test)
    (classes : Entries String String) (c : Option String) (n : Node) (h : every test n = true) :
    every test (styleNode classes c n).1 = true :=
  every_styleNode_of_keeps htest.keepsClasses classes c n h

theorem everyAll_styleNodes {test : String → Attributes → Bool} (htest : IgnoresHtml test)
    (classes : Entries String String) (c : Option String) (ns : List Node)
    (h : everyAll test ns = true) : everyAll test (styleNodes classes c ns).1 = true :=
  everyAll_styleNodes_of_keeps htest.keepsClasses classes c ns h

end Styling

end RouteDocs
