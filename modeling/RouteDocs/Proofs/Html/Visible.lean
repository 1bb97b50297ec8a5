import RouteDocs.Html.PlainHighlighter
import RouteDocs.Proofs.Directive.Step
import RouteDocs.Proofs.EveryElement
import RouteDocs.Proofs.Html.Markup
import RouteDocs.Proofs.Html.Reader

/-!
# What a rendered tree shows

Where no marker word is set, all of a text is shown, links and all. So a tree
that is shown is a fragment of its visible text: the tags of each element stand
around what its children show, and a definition list puts its terms and the
nodes after them between tags of its own.

Results:
* `fragment_text`: a text is shown as a fragment of itself.
* `fragment_wrap`: a rendering between tags.
* `fragment_render`, `fragment_renderTerms`: a tree is shown as a fragment of its visible text.
* `render_shows_visible`: the tags of a page are balanced, and what is read is the visible text.
-/
namespace RouteDocs.Html

/-! ## Visible text -/

mutual

/-- The visible text of a tree: of an element of an unknown kind that of its first child. -/
def visible : Node → List Char
  | .text s => s.toList
  | .element name _ cs =>
    match Kind.ofName? name with
    | some .definitionList => visibleTerms false cs
    | some .term | some .directive | some .data | none =>
      match cs with
      | [] => []
      | c :: _ => visible c
    | some _ => visibleAll cs

def visibleAll : List Node → List Char
  | [] => []
  | n :: rest => visible n ++ visibleAll rest

/-- The visible text of the children of a definition list: of each term its children, then the
nodes after it. `opened` tells that there has been a term. -/
def visibleTerms (opened : Bool) : List Node → List Char
  | [] => []
  | .text s :: rest =>
    if opened then visible (.text s) ++ visibleTerms true rest else visibleTerms false rest
  | .element name as cs :: rest =>
    if name = Kind.term.name then visibleAll cs ++ visibleTerms true rest
    else if opened then visible (.element name as cs) ++ visibleTerms true rest
    else visibleTerms false rest

end

/-! ## Texts -/

/-- A renderer without marker words and without a language for verbatim blocks, whose methods are
capitals and whose addresses need no entities. -/
structure Renderer.IsPlain (r : Renderer) : Prop where
  markers : r.config.markers = []
  methods : OrderlyMethods [] r.config.routeMethods
  anchorPrefix : ∀ c ∈ r.config.anchorPrefix.toList, c ∉ special
  language : r.config.verbatimLanguage = none

theorem orderly_nil : Orderly [] :=
  ⟨by decide, by decide, .nil⟩

theorem shownText_of_noMarkers (s : List Char) : shownText [] s = s := by
  induction s with
  | nil => rfl
  | cons c s ih =>
    rw [shownText_char rfl, ih]
    rfl

/-- No address holds a character with a meaning of its own. -/
theorem notMem_special_of_target {r : Renderer} (hr : r.IsPlain) (s : String) :
    ∀ c ∈ (r.config.anchorPrefix ++ r.target s).toList, c ∉ special := by
  intro c hc
  rw [String.toList_append, List.mem_append] at hc
  rcases hc with hc | hc
  · exact hr.anchorPrefix c hc
  · exact notMem_special_of_isAllowed (Identifier.isAllowed_of_mem_normalize hc)

theorem fragment_of_attribute {name key value s h : List Char} (hname : isTagName name = true)
    (hkey : isAttributeName key = true) (hf : Fragment s h) :
    Fragment s (openingChars name [(key, value)] ++ (h ++ closingChars name)) :=
  .element hname (fun _ ha => List.mem_singleton.1 ha ▸ hkey) hf

theorem openingChars_one (name key value : List Char) :
    openingChars name [(key, value)] =
      '<' :: (name ++ ' ' :: (key ++ '=' :: '"' :: (escapeChars true value ++ ['"', '>']))) := by
  simp only [openingChars, attributesChars, attributeChars, List.flatMap_cons, List.flatMap_nil,
    List.append_nil, List.cons_append, List.append_assoc, List.nil_append]

theorem Markup.fragment {s h : List Char} (hm : Markup s h) : Fragment s h := by
  induction hm with
  | text s => exact .text s
  | append _ _ ihs iht => exact ihs.append iht
  | @label cssClass s h _ ih =>
    have helement : Fragment s (openingChars "span".toList
        [("class".toList, "label ".toList ++ cssClass)] ++ (h ++ closingChars "span".toList)) :=
      fragment_of_attribute (by decide) (by decide) ih
    simp only [openingChars_one, escapeChars_append, List.append_assoc, List.cons_append] at helement
    exact helement
  | @link address s h _ ih =>
    have helement : Fragment s (openingChars "a".toList [("href".toList, address)] ++
        (h ++ closingChars "a".toList)) := fragment_of_attribute (by decide) (by decide) ih
    simp only [openingChars_one, List.append_assoc, List.cons_append] at helement
    exact helement

section
variable {r : Renderer}

/-- Without marker words a text is shown as a fragment of itself. -/
theorem fragment_text (hr : r.IsPlain) {s t : String} (h : r.text s = .ok t) :
    Fragment s.toList t.toList := by
  have ho : Orderly r.config.markers := hr.markers ▸ orderly_nil
  have hunmarked : Unmarked [] r.config.routeMethods s.toList := fun _ _ _ hk => nomatch hk
  rw [text_eq ho, hr.markers] at h
  have hmarkup := markup_linked orderly_nil hr.methods (notMem_special_of_target hr) hunmarked
  rw [shownText_of_noMarkers] at hmarkup
  rw [← Except.ok.inj h, String.toList_ofList]
  exact hmarkup.fragment

/-! ## Tags -/

/-- HTML attributes that are a mapping whose names are letters and hyphens, if there are any. -/
def hasPlainNames : Option Value → Bool
  | none => true
  | some (.mapping ms) => ms.all fun m => isAttributeName m.1.toList
  | some _ => false

/-- The HTML attributes of an element are a mapping whose names are letters and hyphens, if it has
any. -/
def plainAttributes (_name : String) (as : Attributes) : Bool :=
  hasPlainNames (Renderer.htmlAttributes as)

theorem toList_attributeText (name : String) (v : Value) :
    (attributeText name v).toList = attributeChars name.toList v.shown.toList := by
  simp only [attributeText, escape, String.toList_append, String.toList_ofList, List.append_assoc]
  rfl

theorem toList_openingTagListing (name : String) (as : Attributes) :
    (openingTagListing name as).toList =
      openingChars name.toList (as.map fun m => (m.1.toList, m.2.shown.toList)) := by
  have hlisting : openingTagListing name as =
      "<" ++ name ++ String.join (as.map fun m => attributeText m.1 m.2) ++ ">" := rfl
  have hattributes : (String.join (as.map fun m => attributeText m.1 m.2)).toList =
      attributesChars (as.map fun m => (m.1.toList, m.2.shown.toList)) := by
    rw [String.toList_join, attributesChars, List.flatMap_map, List.flatMap_map]
    exact congrArg (as.flatMap ·) (funext fun m => toList_attributeText m.1 m.2)
  rw [hlisting]
  simp only [String.toList_append, hattributes, List.append_assoc]
  rfl

theorem toList_closingTag (name : String) : (closingTag name).toList = closingChars name.toList := by
  simp only [closingTag, String.toList_append, List.append_assoc]
  rfl

theorem openingTag_plain {name o : String} {html : Option Value} (hplain : hasPlainNames html = true)
    (h : openingTag name html = .ok o) :
    ∃ as : List (List Char × List Char), (∀ a ∈ as, isAttributeName a.1 = true) ∧
      o.toList = openingChars name.toList as := by
  have hlisted : ∀ ms : Attributes, (∀ m ∈ ms, isAttributeName m.1.toList = true) →
      openingTagWith name ms = o → ∃ as : List (List Char × List Char),
        (∀ a ∈ as, isAttributeName a.1 = true) ∧ o.toList = openingChars name.toList as := by
    rintro ms hms rfl
    have hchars := toList_openingTagListing name (sortedByName ms)
    refine ⟨_, fun a ha => ?_, hchars⟩
    obtain ⟨m, hm, rfl⟩ := List.mem_map.1 ha
    exact hms m (List.mem_mergeSort.1 hm)
  match html, hplain with
  | none, _ => exact hlisted [] (fun _ hm => nomatch hm) (Except.ok.inj h)
  | some (.mapping ms), hplain =>
    exact hlisted ms (List.all_eq_true.1 hplain) (openingTag_mapping_ok_iff.1 h).2.symm

theorem quiet_ok {α : Type} {x : Except Fault α} {a : α} {log log' : List Notice}
    (h : quiet x log = .ok a log') : x = .ok a := by
  cases x with
  | error f => cases h
  | ok b =>
    cases h
    rfl

/-- A rendering always makes a fragment of a text. -/
def MakesFragment (v : List Char) (body : Rendered String) : Prop :=
  ∀ s log log', body log = .ok s log' → Fragment v s.toList

/-- A rendering between tags. -/
theorem fragment_wrap {tag : String} {html : Option Value} {as : Attributes} {v : List Char}
    {body : Rendered String} (htag : isTagName tag.toList = true)
    (hhtml : hasPlainNames html = true) (hbody : MakesFragment v body) :
    MakesFragment v (Renderer.wrap tag html as body) := by
  intro s log log' h
  rw [Renderer.wrap] at h
  obtain ⟨opening, log₁, hopening, hrest⟩ := bind_ok h
  obtain ⟨inner, log₂, hinner, hend⟩ := bind_ok hrest
  cases hend
  obtain ⟨attributes, hattributes, hchars⟩ := openingTag_plain hhtml (quiet_ok hopening)
  have hshown := hbody inner _ _ hinner
  have hfeeds : Fragment v
      ((Renderer.innerLineFeed as).toList ++ (inner.toList ++ (Renderer.innerLineFeed as).toList)) := by
    rw [Renderer.innerLineFeed]
    split
    · exact hshown.before_lineFeed.after_lineFeed
    · simpa using hshown
  have helement := Fragment.element htag hattributes hfeeds
  simpa only [String.toList_append, toList_closingTag, hchars, List.append_assoc] using helement

theorem fragment_lines {v : List Char} {body : Rendered String} (hbody : MakesFragment v body) :
    MakesFragment v (do return "\n" ++ (← body) ++ "\n") := by
  intro s log log' h
  obtain ⟨inner, log₁, hinner, hend⟩ := bind_ok h
  cases hend
  have hlines := (hbody inner _ _ hinner).before_lineFeed.after_lineFeed
  rw [String.toList_append, String.toList_append, List.append_assoc]
  exact hlines

end

/-! ## Trees -/

/-- What a definition list shows so far: the end of an open definition, if one is open, stands
among what is shown. -/
def ShowsTerms (opened : Bool) (v h : List Char) : Prop :=
  if opened then ∃ v₁ h₁ v₂ h₂, Fragment v₁ h₁ ∧ Fragment v₂ h₂ ∧ v = v₁ ++ v₂ ∧
    h = h₁ ++ (closingChars "dd".toList ++ h₂)
  else Fragment v h

namespace ShowsTerms

variable {v h w k : List Char}

theorem nil (opened : Bool) : ShowsTerms opened [] (if opened then "</dd>" else "").toList := by
  cases opened with
  | false => exact Fragment.nil
  | true => exact ⟨[], [], [], [], .nil, .nil, rfl, rfl⟩

/-- What stands within an open definition. -/
theorem after_node (hf : Fragment w k) (hs : ShowsTerms true v h) :
    ShowsTerms true (w ++ v) (k ++ h) := by
  obtain ⟨v₁, h₁, v₂, h₂, hf₁, hf₂, rfl, rfl⟩ := hs
  exact ⟨w ++ v₁, k ++ h₁, v₂, h₂, hf.append hf₁, hf₂, (List.append_assoc ..).symm,
    (List.append_assoc ..).symm⟩

theorem after_term (opened : Bool) (hf : Fragment w k) (hs : ShowsTerms true v h) :
    ShowsTerms opened (w ++ v)
      ((if opened then "</dd>" else "").toList ++ (k ++ ("<dd>".toList ++ h))) := by
  obtain ⟨v₁, h₁, v₂, h₂, hf₁, hf₂, rfl, rfl⟩ := hs
  have hdefinition : Fragment v₁ (openingChars "dd".toList [] ++ (h₁ ++ closingChars "dd".toList)) :=
    .element (by decide) (fun _ ha => nomatch ha) hf₁
  have hall := hf.append (hdefinition.append hf₂)
  simp only [List.append_assoc] at hall
  cases opened with
  | false => exact hall
  | true => exact ⟨[], [], _, _, .nil, hall, rfl, rfl⟩

end ShowsTerms

section
variable {r : Renderer}

open Renderer (render renderAll renderTerms)
open Node (every everyAll)

/-- What all renderings of the children of a definition list show. -/
def MakesTerms (opened : Bool) (v : List Char) (body : Rendered String) : Prop :=
  ∀ s log log', body log = .ok s log' → ShowsTerms opened v s.toList

theorem makesTerms_other {trail : List String} {n : Node} {rest : List Node} {v : List Char}
    (hn : MakesFragment v (render r trail n))
    (hrest : ∀ opened, MakesTerms opened (visibleTerms opened rest) (renderTerms r trail opened rest))
    (opened : Bool) :
    MakesTerms opened (if opened then v ++ visibleTerms true rest else visibleTerms false rest)
      (if opened then do
        let first ← render r trail n
        let others ← renderTerms r trail true rest
        return first ++ others
      else renderTerms r trail false rest) := by
  intro s log log' h
  cases opened with
  | false => exact hrest false s log log' h
  | true =>
    obtain ⟨first, log₁, hfirst, hmore⟩ := bind_ok h
    obtain ⟨others, log₂, hothers, hend⟩ := bind_ok hmore
    cases hend
    rw [String.toList_append]
    exact ShowsTerms.after_node (hn _ _ _ hfirst) (hrest true _ _ _ hothers)

theorem makesTerms_term {trail : List String} {as : Attributes} {cs rest : List Node}
    (has : plainAttributes Kind.term.name as = true)
    (hcs : MakesFragment (visibleAll cs) (renderAll r trail cs))
    (hrest : MakesTerms true (visibleTerms true rest) (renderTerms r trail true rest))
    (opened : Bool) :
    MakesTerms opened (visibleAll cs ++ visibleTerms true rest) (do
      let term ← Renderer.wrap "dt" (Renderer.htmlAttributes as) as (renderAll r trail cs)
      let others ← renderTerms r trail true rest
      return (if opened then "</dd>" else "") ++ term ++ "<dd>" ++ others) := by
  intro s log log' h
  obtain ⟨term, log₁, hterm, hmore⟩ := bind_ok h
  obtain ⟨others, log₂, hothers, hend⟩ := bind_ok hmore
  cases hend
  have htag : isTagName "dt".toList = true := by decide
  have hshown := fragment_wrap htag has hcs _ _ _ hterm
  simp only [String.toList_append, List.append_assoc]
  exact ShowsTerms.after_term opened hshown (hrest _ _ _ hothers)

theorem fragment_definitionList {trail : List String} {as : Attributes} {cs : List Node}
    (has : hasPlainNames (Renderer.htmlAttributes as) = true)
    (hterms : MakesTerms false (visibleTerms false cs) (renderTerms r trail false cs)) :
    MakesFragment (visibleTerms false cs) (do
      let opening ← quiet (openingTag "dl" (Renderer.htmlAttributes as))
      let inner ← renderTerms r trail false cs
      return opening ++ "\n" ++ inner ++ "\n</dl>\n") := by
  intro s log log' h
  obtain ⟨opening, log₁, hopening, hmore⟩ := bind_ok h
  obtain ⟨inner, log₂, hinner, hend⟩ := bind_ok hmore
  cases hend
  obtain ⟨attributes, hattributes, hchars⟩ := openingTag_plain has (quiet_ok hopening)
  have hshown : Fragment (visibleTerms false cs) inner.toList := hterms _ _ _ hinner
  have htag : isTagName "dl".toList = true := by decide
  have hlist :=
    (Fragment.element htag hattributes hshown.before_lineFeed.after_lineFeed).before_lineFeed
  simp only [List.append_assoc, List.cons_append] at hlist
  simp only [String.toList_append, hchars, List.append_assoc]
  exact hlist

theorem hasPlainNames_linkAttributes {as : Attributes} {address : String} {html : Value}
    (has : plainAttributes Kind.link.name as = true)
    (h : Renderer.linkAttributes as address = .ok html) : hasPlainNames (some html) = true := by
  have hkey : isAttributeName "href".toList = true := by decide
  unfold Renderer.linkAttributes at h
  split at h
  · cases h
    exact List.all_eq_true.2 fun m hm => List.mem_singleton.1 hm ▸ hkey
  · rename_i ms hms
    cases h
    rw [plainAttributes, Renderer.htmlAttributes, hms] at has
    refine List.all_eq_true.2 fun m hm => ?_
    rcases Entries.mem_put hm with hm | rfl
    · exact List.all_eq_true.1 has m hm
    · exact hkey
  · cases h

theorem fragment_link {trail : List String} {as : Attributes} {cs : List Node}
    (has : plainAttributes Kind.link.name as = true)
    (hcs : MakesFragment (visibleAll cs) (renderAll r trail cs)) :
    MakesFragment (visibleAll cs) (do
      let address ← quiet (r.linkAddress as)
      let html ← quiet (Renderer.linkAttributes as address)
      Renderer.wrap "a" (some html) as (renderAll r trail cs)) := by
  intro s log log' h
  obtain ⟨address, log₁, -, hmore⟩ := bind_ok h
  obtain ⟨html, log₂, hhtml, hwrap⟩ := bind_ok hmore
  have hplain := hasPlainNames_linkAttributes has (quiet_ok hhtml)
  exact fragment_wrap (by decide) hplain hcs _ _ _ hwrap

/-- An element of an unknown kind is shown by its first child. -/
theorem fragment_first {name : String} {trail : List String} {cs : List Node} :
    (∀ c ∈ cs.head?, MakesFragment (visible c) (render r trail c)) →
      MakesFragment
        (match cs with
          | [] => []
          | c :: _ => visible c)
        (match cs with
          | [] => throw (.unrenderable name trail none)
          | c :: _ => do
            note (.unrecognised name)
            render r trail c) := by
  intro hfirst s log log' h
  cases cs with
  | nil => cases h
  | cons c rest =>
    obtain ⟨_, log₁, -, hrest⟩ := bind_ok h
    exact hfirst c rfl _ _ _ hrest

mutual

/-- A tree is shown as a fragment of its visible text. -/
theorem fragment_render (hr : r.IsPlain) (trail : List String) : ∀ n : Node,
    every plainAttributes n = true → MakesFragment (visible n) (render r trail n)
  | .text s, _ => by
    intro t log log' h
    rw [render] at h
    rw [visible]
    exact fragment_text hr (quiet_ok h)
  | .element name as cs, hn => by
    obtain ⟨has, hcs⟩ := Node.every_element.1 hn
    have hall := fragment_renderAll hr (trail ++ [name]) cs hcs
    have hterms := fragment_renderTerms hr (trail ++ [name]) false cs hcs
    have hfirst : ∀ c ∈ cs.head?, MakesFragment (visible c) (render r (trail ++ [name]) c) := by
      cases cs with
      | nil => exact fun _ hc => nomatch hc
      | cons c rest =>
        rw [everyAll, Bool.and_eq_true] at hcs
        intro _ hc
        cases hc
        exact fragment_render hr (trail ++ [name]) c hcs.1
    rw [visible.eq_def, render.eq_def]
    cases hk : Kind.ofName? name with
    | none =>
      simp only [hk]
      exact fragment_first hfirst
    | some k =>
      cases k with
      | document =>
        simp only [hk]
        exact hall
      | head1 | head2 | head3 | head4 =>
        simp only [hk]
        exact fragment_lines (fragment_wrap (by decide) has hall)
      | paragraph | italic | bold | code =>
        simp only [hk]
        exact fragment_wrap (by decide) has hall
      | verbatim =>
        simp only [hk, hr.language, Option.filter_none]
        exact fragment_wrap (by decide) has hall
      | link =>
        simp only [hk]
        exact fragment_link has hall
      | definitionList =>
        simp only [hk]
        exact fragment_definitionList has hterms
      | term | directive | data =>
        simp only [hk]
        exact fragment_first hfirst

theorem fragment_renderAll (hr : r.IsPlain) (trail : List String) : ∀ ns : List Node,
    everyAll plainAttributes ns = true → MakesFragment (visibleAll ns) (renderAll r trail ns)
  | [], _ => by
    intro s log log' h
    cases h
    exact .nil
  | n :: rest, hns => by
    rw [everyAll, Bool.and_eq_true] at hns
    intro s log log' h
    rw [renderAll] at h
    obtain ⟨first, log₁, hfirst, hrest⟩ := bind_ok h
    obtain ⟨others, log₂, hothers, hend⟩ := bind_ok hrest
    cases hend
    rw [visibleAll, String.toList_append]
    exact (fragment_render hr trail n hns.1 _ _ _ hfirst).append
      (fragment_renderAll hr trail rest hns.2 _ _ _ hothers)

/-- The children of a definition list are shown with their definitions between tags. -/
theorem fragment_renderTerms (hr : r.IsPlain) (trail : List String) (opened : Bool) :
    ∀ ns : List Node, everyAll plainAttributes ns = true →
      MakesTerms opened (visibleTerms opened ns) (renderTerms r trail opened ns)
  | [], _ => by
    intro s log log' h
    cases h
    exact ShowsTerms.nil opened
  | .text s :: rest, hns => by
    rw [everyAll, Bool.and_eq_true] at hns
    rw [renderTerms, visibleTerms]
    exact makesTerms_other (fragment_render hr trail (.text s) hns.1)
      (fun opened => fragment_renderTerms hr trail opened rest hns.2) opened
  | .element name as cs :: rest, hns => by
    rw [everyAll, Bool.and_eq_true] at hns
    have hrest := fun opened => fragment_renderTerms hr trail opened rest hns.2
    rw [renderTerms, visibleTerms]
    by_cases hname : name = Kind.term.name
    · obtain ⟨has, hcs⟩ := Node.every_element.1 hns.1
      rw [if_pos hname, if_pos hname]
      exact makesTerms_term has (fragment_renderAll hr trail cs hcs) (hrest true) opened
    · rw [if_neg hname, if_neg hname]
      exact makesTerms_other (fragment_render hr trail (.element name as cs) hns.1) hrest opened

end

end

/-! ## Pages -/

theorem Renderer.isPlain_of_noMarkers {r : Renderer}
    (hr : r.config = { RenderConfig.default with markers := [] }) : r.IsPlain := by
  have hmethods := orderlyMethods_default
  refine ⟨by rw [hr], ?_, ?_, by rw [hr]; rfl⟩
  · rw [hr]
    refine ⟨hmethods.ne_nil, hmethods.capital, ?_, ?_⟩ <;> exact fun _ _ _ hk => nomatch hk
  · rw [hr]
    decide

/-- The page of a tree, with the marker words taken away from what holds by default. Its tags are
balanced and properly nested, and what is read of it is the visible text of the tree. -/
theorem render_shows_visible {r : Renderer}
    (hr : r.config = { RenderConfig.default with markers := [] }) {n : Node}
    (hn : n.every plainAttributes = true) {trail : List String} {log log' : List Notice} {s : String}
    (h : r.render trail n log = .ok s log') :
    isBalanced s.toList = true ∧
      dropLineFeeds (unescape (deleteTags s.toList)) = dropLineFeeds (visible n) := by
  have hshown := fragment_render (Renderer.isPlain_of_noMarkers hr) trail n hn s log log' h
  exact ⟨hshown.isBalanced, hshown.readPage_eq⟩

/-- A list with a node before its first term, a link with a title, a route, and an element of an
unknown kind that has two children. -/
theorem render_shows_visible_of_list :
    let r : Renderer := ⟨{ RenderConfig.default with markers := [] }, "pod"⟩
    let n := Node.element "Document" [] [
      .element "over-text" [] [.text "lost",
        .element "item-text" [] [.text "see GET /a&b"], .element "Para" [] [.text "1 < 2"]],
      .element "L" [("to", .text "x"),
        ("html_attributes", .mapping [("title", .text "\"<\"")])] [.text "TODO\n"],
      .element "odd" [] [.text "first", .text "second"]]
    r.config = { RenderConfig.default with markers := [] } ∧ n.every plainAttributes = true ∧
      ∃ s log', r.render [] n [] = .ok s log' ∧ isBalanced s.toList = true ∧
        dropLineFeeds (unescape (deleteTags s.toList)) = "see GET /a&b1 < 2TODOfirst".toList := by
  intro r n
  have hends : ((r.render [] n).run' []).isSome = true := by decide +kernel
  have hplain : n.every plainAttributes = true := by decide
  cases h : r.render [] n [] with
  | error f log' =>
    delta EStateM.run' EStateM.run at hends
    rw [h] at hends
    cases hends
  | ok s log' =>
    obtain ⟨hbalanced, hread⟩ := render_shows_visible rfl hplain h
    exact ⟨rfl, hplain, s, log', rfl, hbalanced, hread⟩

end RouteDocs.Html
