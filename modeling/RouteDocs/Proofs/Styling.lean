import RouteDocs.Proofs.Catalog
import RouteDocs.Proofs.Html.Desk
import RouteDocs.Proofs.Projection

/-!
# Classes and places

The catalog and the styling both follow the headings of a page. The catalog
keeps the text of the last heading of level four in the section. The styling
keeps a class: a heading without a class of its own leaves that of an earlier
one in force. So a list whose subsection has a class gets that class, a list
outside of all subsections is left as it is, and any other gets the class of
the last heading of its section that has one.

Results:
* `subsection_afterAll`, `classAfterAll`: both are read off `headsAbove`, the
  headings of level four between a place and the start of its section.
* `bareAll_styleNodes`: but for the HTML attributes of lists nothing changes.
* `styleNodes_getElem?`: each node of a row that could all be styled.
* `nodes_stylePage`: where all HTML attributes are mappings each node is styled.
* `stylePage_follows_places`: which class each list of a page has in the end.
-/
namespace RouteDocs.Styling

open Html

/-! ## The headings above a place -/

/-- The headings of level four after the last that ended a section, the last one first. -/
def headsAbove (before : List Node) : List Node :=
  (before.reverse.takeWhile fun n => !n.endsSection).filter (·.isA .head4)

/-- The class of the last heading in the section that has one. -/
def lastClass? (classes : Entries String String) (before : List Node) : Option String :=
  (headsAbove before).findSome? fun n => Entries.get? classes n.flatten

theorem headsAbove_concat (before : List Node) (n : Node) :
    headsAbove (before ++ [n]) =
      if n.endsSection then []
      else if n.isA .head4 then n :: headsAbove before else headsAbove before := by
  simp only [headsAbove, List.reverse_append, List.reverse_singleton, List.singleton_append,
    List.takeWhile_cons]
  cases n.endsSection <;> simp [List.filter_cons]

/-- The subsection at a place is the last heading of level four in the section. -/
theorem subsection_afterAll (before : List Node) :
    (Place.start.afterAll before).subsection = (headsAbove before).head?.map Node.flatten := by
  induction before using List.reverseRecOn with
  | nil => rfl
  | append_singleton before n ih =>
    rw [Place.afterAll_append, headsAbove_concat]
    change ((Place.start.afterAll before).after n).subsection = _
    by_cases hend : n.endsSection = true
    · simp [Place.subsection_after_endsSection hend, hend]
    · by_cases h4 : n.isA .head4 = true
      · simp [Place.after_head4 h4, hend, h4]
      · rw [Place.after_of_no_heading (by simpa using hend) (by simpa using h4), ih]
        simp [hend, h4]

section
variable {classes : Entries String String} {c : Option String} {n : Node}

theorem classAfter_endsSection (h : n.endsSection = true) : classAfter classes c n = none := by
  rcases Node.endsSection_iff.1 h with h | h | h <;>
    simp [classAfter, Node.isA_iff_kind?.1 h, Kind.endsSection]

theorem classAfter_head4 (h : n.isA .head4 = true) :
    classAfter classes c n = (Entries.get? classes n.flatten).or c := by
  rw [classAfter, Node.isA_iff_kind?.1 h]

/-- Without a heading of the levels one to four the class stays in force. -/
theorem classAfter_of_no_heading (h : n.endsSection = false) (h4 : n.isA .head4 = false) :
    classAfter classes c n = c := by
  unfold Node.endsSection at h
  unfold Node.isA at h4
  unfold classAfter
  cases hk : n.kind? with
  | none => rfl
  | some k => cases k <;> simp_all [Kind.endsSection]

end

/-- The class in force at a place is that of the last heading in the section that has one. -/
theorem classAfterAll (classes : Entries String String) (before : List Node) :
    before.foldl (classAfter classes) none = lastClass? classes before := by
  induction before using List.reverseRecOn with
  | nil => rfl
  | append_singleton before n ih =>
    rw [List.foldl_append, ih, List.foldl_cons, List.foldl_nil]
    simp only [lastClass?, headsAbove_concat]
    by_cases hend : n.endsSection = true
    · simp [classAfter_endsSection hend, hend]
    · by_cases h4 : n.isA .head4 = true
      · rw [classAfter_head4 h4]
        cases hn : Entries.get? classes n.flatten <;> simp [hend, h4, hn]
      · rw [classAfter_of_no_heading (by simpa using hend) (by simpa using h4)]
        simp [hend, h4]

/-! ## What a class is put on -/

/-- The CSS class among the HTML attributes of an element. -/
def cssClass? (n : Node) : Option Value :=
  match n.attribute? htmlAttributesKey with
  | some (.mapping html) => Entries.get? html "class"
  | _ => none

mutual

/-- A tree without the HTML attributes of its lists. -/
def bare : Node → Node
  | .text s => .text s
  | .element name as cs =>
    .element name
      (if name = Kind.definitionList.name then as.filter fun (k, _) => k ≠ htmlAttributesKey
        else as)
      (bareAll cs)

/-- Trees without the HTML attributes of their lists. -/
def bareAll : List Node → List Node
  | [] => []
  | n :: rest => bare n :: bareAll rest

end

theorem filter_put (as : Attributes) (v : Value) :
    (Entries.put as htmlAttributesKey v).filter (fun (k, _) => k ≠ htmlAttributesKey) =
      as.filter fun (k, _) => k ≠ htmlAttributesKey := by
  induction as with
  | nil => simp [Entries.put]
  | cons e rest ih =>
    obtain ⟨k, w⟩ := e
    by_cases hk : k = htmlAttributesKey <;> simp_all [Entries.put]

mutual

/-- Styling changes nothing but the HTML attributes of lists. -/
theorem bare_styleNode (classes : Entries String String) (c : Option String) : ∀ n : Node,
    bare (styleNode classes c n).1 = bare n
  | .text s => rfl
  | .element name as cs => by
    rcases styleNode_element classes c name as cs with hsame | ⟨given, as', hkind, hput, hstyled⟩
    · rw [hsame]
    · obtain ⟨html, rfl⟩ := putClass?_eq_some hput
      have hname := Kind.ofName?_eq_some_iff.1 hkind
      rw [hstyled]
      simp only [bare, hname, if_true, filter_put, bareAll_styleNodes classes c cs]

theorem bareAll_styleNodes (classes : Entries String String) (c : Option String) :
    ∀ ns : List Node, bareAll (styleNodes classes c ns).1 = bareAll ns
  | [] => rfl
  | n :: rest => by
    have hn := bare_styleNode classes c n
    rcases styleNodes_cons classes c n rest with hstyled | hstyled
    · rw [hstyled, bareAll, bareAll, hn]
    · rw [hstyled, bareAll, bareAll, hn, bareAll_styleNodes classes _ rest]

end

/-! ## A styling that ends well -/

theorem cssClass?_of_putClass? {as as' : Attributes} {given : String}
    (h : putClass? as given = some as')
    (name : String) (cs : List Node) :
    cssClass? (.element name as' cs) = some (.text given) := by
  obtain ⟨html, rfl⟩ := putClass?_eq_some h
  simp [cssClass?, Node.attribute?, Node.attributes, Entries.get?_put]

section
variable {classes : Entries String String} {c : Option String} {n : Node} {given : String}

/-- Where the styling of a row ends well, each node of it is styled with the class that is in force
at its place, and that ends well. -/
theorem styleNodes_getElem? {ns : List Node} (h : (styleNodes classes c ns).2 = none) {i : Nat}
    (hn : ns[i]? = some n) :
    let styled := styleNode classes ((ns.take i).foldl (classAfter classes) c) n
    (styleNodes classes c ns).1[i]? = some styled.1 ∧ styled.2 = none := by
  induction ns generalizing c i with
  | nil => cases hn
  | cons first rest ih =>
    rw [styleNodes] at h ⊢
    split at h
    · cases h
    · rename_i first' hfirst
      cases i with
      | zero =>
        obtain rfl := Option.some.inj hn
        refine ⟨?_, congrArg Prod.snd hfirst⟩
        change some first' = some (styleNode classes c first).1
        rw [hfirst]
      | succ i => exact ih h hn

theorem styleNode_of_list (hgiven : given ≠ "") (hlist : n.isA .definitionList = true)
    (h : (styleNode classes (some given) n).2 = none) :
    cssClass? (styleNode classes (some given) n).1 = some (.text given) ∧
      (styleNode classes (some given) n).1.children =
        (styleNodes classes (some given) n.children).1 ∧
      (styleNodes classes (some given) n.children).2 = none := by
  obtain ⟨as, cs, rfl⟩ := Node.isA_iff.1 hlist
  have hkind : Kind.ofName? Kind.definitionList.name = some .definitionList := rfl
  have heffective : effective (some given) = some given := by
    simp [effective, hgiven]
  rw [styleNode] at h ⊢
  simp only [hkind, heffective] at h ⊢
  cases hput : putClass? as given with
  | none =>
    rw [hput] at h
    cases h
  | some as' =>
    rw [hput] at h
    exact ⟨cssClass?_of_putClass? hput _ _, rfl, h⟩

end

/-! ## Where all can take a class -/

/-- A mapping, or none, can take a class. -/
theorem putClass?_of_maps {name : String} {as : Attributes}
    (h : Renderer.mapsAttributes name as = true) (given : String) :
    ∃ as', putClass? as given = some as' := by
  rcases Renderer.mapsAttributes_iff.1 h with h | ⟨html, h⟩
  all_goals
    rw [Renderer.htmlAttributes] at h
    exact ⟨_, by rw [putClass?, h]⟩

mutual

theorem styleNode_ok (classes : Entries String String) (c : Option String) : ∀ n : Node,
    n.every Renderer.mapsAttributes = true → (styleNode classes c n).2 = none
  | .text s, _ => rfl
  | .element name as cs, h => by
    obtain ⟨has, hcs⟩ := Node.every_element.1 h
    rw [styleNode]
    split
    · rename_i given _ _
      obtain ⟨as', hput⟩ := putClass?_of_maps has given
      simp only [hput, styleNodes_ok classes c cs hcs]
    · rfl

theorem styleNodes_ok (classes : Entries String String) (c : Option String) :
    ∀ ns : List Node, Node.everyAll Renderer.mapsAttributes ns = true →
      (styleNodes classes c ns).2 = none
  | [], _ => rfl
  | n :: rest, h => by
    rw [Node.everyAll, Bool.and_eq_true] at h
    have hn := styleNode_ok classes c n h.1
    rw [styleNodes]
    split
    · rename_i heq
      simp [heq] at hn
    · exact styleNodes_ok classes _ rest h.2

end

theorem styleNodes_at (classes : Entries String String) (c : Option String)
    {before rest : List Node} {n : Node}
    (h : Node.everyAll Renderer.mapsAttributes (before ++ n :: rest) = true) :
    (styleNodes classes c (before ++ n :: rest)).1[before.length]? =
      some (styleNode classes (before.foldl (classAfter classes) c) n).1 := by
  have hn : (before ++ n :: rest)[before.length]? = some n := by simp
  have hat := (styleNodes_getElem? (styleNodes_ok classes c _ h) hn).1
  rwa [List.take_left] at hat

theorem styleNode_list {classes : Entries String String} {n : Node}
    (hlist : n.isA .definitionList = true) (hn : n.every Renderer.mapsAttributes = true)
    {given : String} (hgiven : given ≠ "") :
    cssClass? (styleNode classes (some given) n).1 = some (.text given) :=
  (styleNode_of_list hgiven hlist (styleNode_ok classes _ n hn)).1

/-- Without a class in force a node is left as it is. -/
theorem styleNode_none (classes : Entries String String) (n : Node) :
    (styleNode classes none n).1 = n := by
  cases n with
  | text s => rfl
  | element name as cs =>
    rw [styleNode]
    split
    · rename_i hgiven
      cases hgiven
    · rfl

theorem lastClass?_ne_empty {classes : Entries String String} (h : ∀ e ∈ classes, e.2 ≠ "")
    {before : List Node} {c : String} (hc : lastClass? classes before = some c) : c ≠ "" := by
  obtain ⟨n, -, hn⟩ := List.exists_of_findSome?_eq_some hc
  exact h _ (Entries.mem_of_get? hn)

/-! ## The lists of a page -/

/-- The class that a list has, when it is styled, on account of the headings above it. -/
structure Follows (classes : Entries String String) (before : List Node) (n styled : Node) :
    Prop where
  /-- The subsection has a class. -/
  own : ∀ title c, (Place.start.afterAll before).subsection = some title →
    Entries.get? classes title = some c → cssClass? styled = some (.text c)
  /-- There is no subsection. -/
  outside : (Place.start.afterAll before).subsection = none → styled = n
  /-- The subsection has no class, but an earlier one of the section has. -/
  earlier : ∀ title c, (Place.start.afterAll before).subsection = some title →
    Entries.get? classes title = none → lastClass? classes before = some c →
    cssClass? styled = some (.text c)
  /-- No subsection of the section has a class so far. -/
  unclassed : ∀ title, (Place.start.afterAll before).subsection = some title →
    Entries.get? classes title = none → lastClass? classes before = none → styled = n

theorem lastClass?_of_subsection {classes : Entries String String} {before : List Node}
    {title c : String} (h : (Place.start.afterAll before).subsection = some title)
    (hc : Entries.get? classes title = some c) : lastClass? classes before = some c := by
  rw [subsection_afterAll] at h
  rw [lastClass?]
  cases habove : headsAbove before with
  | nil => simp [habove] at h
  | cons n above =>
    simp only [habove, List.head?_cons, Option.map_some, Option.some.injEq] at h
    simp [h, hc]

theorem lastClass?_of_no_subsection (classes : Entries String String) {before : List Node}
    (h : (Place.start.afterAll before).subsection = none) : lastClass? classes before = none := by
  rw [subsection_afterAll] at h
  rw [lastClass?]
  cases habove : headsAbove before with
  | nil => rfl
  | cons n above => simp [habove] at h

theorem follows_styleNode {classes : Entries String String} (hclasses : ∀ e ∈ classes, e.2 ≠ "")
    {before : List Node} {n : Node} (hlist : n.isA .definitionList = true)
    (hn : n.every Renderer.mapsAttributes = true) :
    Follows classes before n (styleNode classes (lastClass? classes before) n).1 := by
  have hgiven : ∀ c, lastClass? classes before = some c →
      cssClass? (styleNode classes (lastClass? classes before) n).1 = some (.text c) := by
    intro c hc
    rw [hc]
    exact styleNode_list hlist hn (lastClass?_ne_empty hclasses hc)
  have hnone : lastClass? classes before = none →
      (styleNode classes (lastClass? classes before) n).1 = n := by
    intro hc
    rw [hc]
    exact styleNode_none classes n
  constructor
  · exact fun title c htitle hc => hgiven c (lastClass?_of_subsection htitle hc)
  · exact fun h => hnone (lastClass?_of_no_subsection classes h)
  · exact fun title c _ _ hc => hgiven c hc
  · exact fun title _ _ hc => hnone hc

/-- Styling a page whose HTML attributes are mappings gives each list at the top level the class
that goes with the place under which it is filed, and changes nothing else but the HTML attributes
of lists. -/
theorem stylePage_follows_places (classes : Entries String String) (p : Page)
    (hclasses : ∀ e ∈ classes, e.2 ≠ "")
    (hhtml : Node.everyAll Renderer.mapsAttributes p.nodes = true) :
    ∃ p', stylePage classes none p = (p', none) ∧ bare p'.toNode = bare p.toNode ∧
      ∀ before b rest, p.blocks = before ++ b :: rest → b.node.isA .definitionList = true →
        (Place.start.afterAll (before.map (·.node)), b.label) ∈
            Catalog.placed Place.start p.blocks ∧
          ∃ styled, p'.blocks[before.length]? = some ⟨b.label, styled⟩ ∧
            Follows classes (before.map (·.node)) b.node styled := by
  refine ⟨p.withNodes (styleNodes classes none p.nodes).1, ?_, ?_, ?_⟩
  · rw [stylePage, ← styleNodes_ok classes none p.nodes hhtml]
  · have hnodes : (p.withNodes (styleNodes classes none p.nodes).1).nodes =
        (styleNodes classes none p.nodes).1 :=
      Page.nodes_withNodes (by rw [length_styleNodes, Page.nodes, List.length_map])
    simp only [Page.toNode, hnodes, bare, bareAll_styleNodes]
    rfl
  · intro before b rest hblocks hlist
    have hnodes : p.nodes = before.map (·.node) ++ b.node :: rest.map (·.node) := by
      simp [Page.nodes, hblocks]
    have hb : b.node.every Renderer.mapsAttributes = true :=
      Node.everyAll_iff.1 hhtml b.node (by simp [hnodes])
    constructor
    · rw [hblocks, Catalog.placed_append, Catalog.placed, if_pos hlist]
      simp
    · have hat := styleNodes_at classes none (hnodes ▸ hhtml)
      rw [← hnodes, classAfterAll, List.length_map] at hat
      exact ⟨_, Page.getElem?_withNodes (by simp [hblocks]) hat, follows_styleNode hclasses hlist hb⟩

/-- A list after a heading without a class, in a section with one that has a class. -/
theorem stylePage_keeps_class :
    let p : Page := .ofElement "Document" [] [
      .element "head3" [] [.text "GET /pets"],
      .element "head4" [] [.text "Input"],
      .element "head4" [] [.text "Notes"],
      .element "over-text" [("html_attributes", .mapping [("id", .text "notes")])] []]
    let classes := [("Input", "input-params"), ("Output", "output-params")]
    ∃ p' styled, stylePage classes none p = (p', none) ∧ p'.blocks[3]? = some ⟨3, styled⟩ ∧
      cssClass? styled = some (.text "input-params") := by
  intro p classes
  have hclasses : ∀ e ∈ classes, e.2 ≠ "" := by decide
  have hhtml : Node.everyAll Renderer.mapsAttributes p.nodes = true := by rfl
  obtain ⟨p', hp', -, hlists⟩ := stylePage_follows_places classes p hclasses hhtml
  obtain ⟨-, styled, hstyled, hfollows⟩ :=
    hlists (p.blocks.take 3) ⟨3, p.nodes[3]⟩ [] rfl rfl
  refine ⟨p', styled, hp', hstyled, hfollows.earlier "Notes" "input-params" ?_ ?_ ?_⟩
  all_goals rfl

end RouteDocs.Styling
