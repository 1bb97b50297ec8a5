import RouteDocs.Html.PlainHighlighter
import RouteDocs.Proofs.Session.Agreement

/-!
# The index against the routes

The index of a document is a row of entries, one for each route heading that it
finds, with the anchor of the heading for an id; the routes have the anchors of
the headings among the blocks for keys. After a session every heading of either
kind has an anchor of its own, so that ids and keys can be compared.

Results:
* `filter_lines`: the entries of an index are those of its route headings, in order.
* `session_complete`: what a session leaves, in any order.
* `entryIds_eq_keys_iff`: ids and keys are the same exactly if the index finds the very blocks.
-/
namespace RouteDocs

open Heading (anchorFound anchorRoutes anchors found listed pageSlots tops)
open Html.Navigation (isHeading opensGroup)

namespace Html.Navigation

def isEntry (line : String) : Bool :=
  "<li><".toList.isPrefixOf line.toList

/-- The ids of the entries of an index, given the headings that it is made of. -/
def entryIds (headings : List Node) : List Value :=
  (headings.filter fun n => !opensGroup n).map Anchor.ofNode

/-- What follows a long enough beginning makes no difference. -/
theorem isEntry_append {s : String} (hs : 5 ≤ s.toList.length) (t : String) :
    isEntry (s ++ t) = isEntry s := by
  rw [isEntry, isEntry, String.toList_append, Bool.eq_iff_iff, List.isPrefixOf_iff_prefix,
    List.isPrefixOf_iff_prefix]
  exact ⟨fun h => List.prefix_of_prefix_length_le h (List.prefix_append _ _) hs,
    fun h => h.trans (List.prefix_append _ _)⟩

theorem isEntry_entry (nav : Navigation) (n : Node) : isEntry (nav.entry n) = true := by
  obtain ⟨rest, hrest⟩ : ∃ rest, nav.entry n = "<li><a href=\"" ++ rest := by
    unfold entry
    simp only [String.append_assoc]
    exact ⟨_, rfl⟩
  rw [hrest, isEntry_append (by decide)]
  decide

theorem isEntry_header (nav : Navigation) (n : Node) : isEntry (nav.header n) = false := by
  obtain ⟨rest, hrest⟩ : ∃ rest, nav.header n = "<a href=\"" ++ rest := by
    unfold header
    simp only [String.append_assoc]
    exact ⟨_, rfl⟩
  rw [hrest, isEntry_append (by decide)]
  decide

theorem isEntry_documentLink (nav : Navigation) : isEntry nav.documentLink = false := by
  obtain ⟨rest, hrest⟩ : ∃ rest, nav.documentLink = "<a href=\"" ++ rest := by
    unfold documentLink
    simp only [String.append_assoc]
    exact ⟨_, rfl⟩
  rw [hrest, isEntry_append (by decide)]
  decide

theorem isEntry_routeListTag (nav : Navigation) : isEntry nav.routeListTag = false := by
  obtain ⟨rest, hrest⟩ : ∃ rest, nav.routeListTag = "<ul class=\"collapse route-list " ++ rest := by
    unfold routeListTag
    simp only [String.append_assoc]
    exact ⟨_, rfl⟩
  rw [hrest, isEntry_append (by decide)]
  decide

/-- The lines around the headers and the entries. -/
theorem isEntry_frame : ∀ line ∈ ["<ul>", "<li>", "</ul>", "</li>"], isEntry line = false := by
  decide

theorem filter_firstLines (nav : Navigation) (n : Node) :
    (nav.firstLines n).filter isEntry = ([n].filter fun n => !opensGroup n).map nav.entry := by
  have hframe := isEntry_frame
  simp only [List.forall_mem_cons] at hframe
  rw [firstLines]
  cases h : opensGroup n <;>
    simp [h, hframe, isEntry_entry, isEntry_header, isEntry_documentLink, isEntry_routeListTag]

theorem filter_nextLines (nav : Navigation) (n : Node) :
    (nav.nextLines n).filter isEntry = ([n].filter fun n => !opensGroup n).map nav.entry := by
  have hframe := isEntry_frame
  simp only [List.forall_mem_cons] at hframe
  rw [nextLines]
  cases h : opensGroup n <;>
    simp [h, hframe, isEntry_entry, isEntry_header, isEntry_routeListTag]

/-- The entries of an index are those of its route headings, in order. -/
theorem filter_lines (nav : Navigation) (headings : List Node) :
    (nav.lines headings).filter isEntry =
      (headings.filter fun n => !opensGroup n).map nav.entry := by
  have hframe := isEntry_frame
  simp only [List.forall_mem_cons] at hframe
  cases headings with
  | nil => rfl
  | cons n rest =>
    have hrest : (rest.flatMap nav.nextLines).filter isEntry =
        (rest.filter fun n => !opensGroup n).map nav.entry := by
      induction rest with
      | nil => rfl
      | cons m rest ih =>
        rw [List.flatMap_cons, List.filter_append, filter_nextLines, ih, ← List.map_append,
          ← List.filter_append, List.singleton_append]
    have hlast : ["</ul>", "</li>", "</ul>"].filter isEntry = [] := by simp [hframe]
    rw [lines, List.filter_append, List.filter_append, filter_firstLines, hrest, hlast,
      List.append_nil, ← List.map_append, ← List.filter_append, List.singleton_append]

/-! ## Ids -/

mutual

theorem filter_find : ∀ n : Node, ((n.find isHeading).filter fun n => !opensGroup n) = found n
  | .text s => rfl
  | .element name as cs => by
    cases h : isHeading name with
    | true =>
      cases hgroup : isGroup name with
      | true =>
        have hopens : opensGroup (.element name as cs) = true :=
          Heading.isA_element.2 (eq_of_beq hgroup)
        rw [Heading.found_group h hgroup, Node.find, if_pos h, List.filter_cons_of_neg (by simp [hopens]),
          List.filter_nil]
      | false =>
        have hopens : opensGroup (.element name as cs) = false :=
          Node.isA_eq_false (Heading.isA_element.2 (Heading.eq_head3 h hgroup)) (by decide)
        rw [Heading.found_route h hgroup, Node.find, if_pos h, List.filter_cons_of_pos (by simp [hopens]),
          List.filter_nil]
    | false =>
      rw [Heading.found_other h, Node.find, if_neg (by simp [h])]
      exact filter_findAll cs

theorem filter_findAll : ∀ ns : List Node,
    ((Node.findAll isHeading ns).filter fun n => !opensGroup n) = ns.flatMap found
  | [] => rfl
  | n :: rest => by
    rw [Node.findAll, List.filter_append, filter_find n, filter_findAll rest, List.flatMap_cons]

end

theorem entryIds_find {n : Node} (h : Slot.Filled Slot.all (Heading.slots false n)) :
    entryIds (n.find isHeading) = anchors (found n) := by
  rw [entryIds, filter_find]
  rw [Heading.slots] at h
  generalize found n = ns at h ⊢
  induction ns with
  | nil => rfl
  | cons m rest ih =>
    obtain ⟨hm, hrest⟩ := List.forall_mem_cons.1 h
    obtain ⟨v, hv⟩ := Option.isSome_iff_exists.1 (hm rfl)
    have hanchor : Anchor.ofAttributes? m.attributes = some v := hv
    rw [List.map_cons, ih hrest, Anchor.ofNode, anchors, anchors, List.filterMap_cons, hanchor]
    rfl

end Html.Navigation

/-! ## Pages after a session -/

namespace Heading

/-- A page with its headings anchored: every heading that is listed or at the top has an anchor of
its own, and is where it was before. -/
structure Anchored (n m : Node) : Prop where
  filled : Slot.Filled Slot.all (pageSlots m)
  nodup : (Slot.given Slot.all (pageSlots m)).Nodup
  places : (pageSlots m).map (·.top) = (pageSlots n).map (·.top)
  listed : listed m = listed n

theorem listed_false (n : Node) : listed n false = true := by
  cases n with
  | text s => rfl
  | element name as cs => cases h : isHeading name <;> simp [listed, h, Slot.others, Slot.all]

theorem filled_all {n : Node} {slots : List Slot} (htops : Slot.Filled Slot.tops slots)
    (hlisted : Slot.Filled (listed n) slots) : Slot.Filled Slot.all slots := by
  intro s hs _
  cases htop : s.top with
  | true => exact htops s hs htop
  | false => exact hlisted s hs (htop ▸ listed_false n)

theorem anchored_routes_first {ids ids' : Identifiers} {n : Node}
    (h : Slot.Empty Slot.all (pageSlots n)) (hsub : (anchorRoutes ids n).2.issued ⊆ ids'.issued) :
    Anchored n (anchorFound ids' (anchorRoutes ids n).1).1 := by
  have hfill := fill_pageSlots_listed ids' (anchorRoutes ids n).1
  have htops := filled_anchorRoutes ids n
  have hdistinct := (distinct_anchorRoutes (Slot.Distinct.of_empty ids h)).mono hsub
  constructor
  · have hlisted := Slot.filled_fill (Heading.listed (anchorRoutes ids n).1) ids'
      (pageSlots (anchorRoutes ids n).1)
    have htops' := htops.fill (Heading.listed (anchorRoutes ids n).1) ids'
    rw [hfill] at hlisted htops'
    exact filled_all htops' hlisted
  · exact (distinct_anchorFound hdistinct).nodup
  · have hplaces := Slot.map_top_fill (Heading.listed (anchorRoutes ids n).1) ids'
      (pageSlots (anchorRoutes ids n).1)
    have hplaces' := Slot.map_top_fill Slot.tops ids (pageSlots n)
    rw [hfill] at hplaces
    rw [fill_pageSlots_tops] at hplaces'
    exact hplaces.trans hplaces'
  · rw [listed_anchorFound, listed_anchorRoutes]

theorem anchored_index_first {ids : Identifiers} {n : Node}
    (h : Slot.Empty Slot.all (pageSlots n)) :
    Anchored n (anchorRoutes (anchorFound ids n).2 (anchorFound ids n).1).1 := by
  have hdistinct := distinct_anchorRoutes (distinct_anchorFound (Slot.Distinct.of_empty ids h))
  have hslots := pageSlots_index_first ids n
  refine ⟨?_, hdistinct.nodup, ?_, ?_⟩
  · rw [hslots]
    exact Slot.filled_fill Slot.all ids (pageSlots n)
  · rw [hslots, Slot.map_top_fill]
  · rw [listed_anchorRoutes, listed_anchorFound]

theorem anchors_tops_anchorFound (ids : Identifiers) {n : Node}
    (h : Slot.Filled Slot.tops (pageSlots n)) :
    anchors (tops (anchorFound ids n).1) = anchors (tops n) := by
  have hgiven := Slot.given_fill_of_filled h (Heading.listed n) ids
  rwa [fill_pageSlots_listed, given_pageSlots_tops, given_pageSlots_tops] at hgiven

theorem filled_slots {n : Node} (h : Slot.Filled Slot.all (pageSlots n)) :
    Slot.Filled Slot.all (slots false n) := by
  cases n with
  | text s => exact nofun
  | element name as cs =>
    cases hname : isHeading name with
    | true =>
      rw [pageSlots_heading hname] at h
      exact fun s hs => h s (List.mem_append_left _ hs)
    | false =>
      rw [pageSlots_other hname] at h
      rw [slots, found_other hname, ← map_blockSlots]
      intro s hs _
      obtain ⟨t, ht, rfl⟩ := List.mem_map.1 hs
      exact h t ht rfl

end Heading

namespace Document

open Html.Navigation (entryIds isEntry)

/-- What a session leaves: a page with its headings anchored, and the index and the keys of the
routes as they are read off it. -/
structure Complete (d : Document) (v : Derived) (d' : Document) : Prop where
  page : Heading.Anchored d.tree d'.tree
  index : v.index = (d'.navigation v.moduleId).text (d'.tree.find isHeading)
  keys : Entries.keys v.routes = anchors (tops d'.tree)

section
variable {d d' : Document} {v : Derived}

theorem complete_routes_first {id : String} {ids ids' : Identifiers} (hd : d.Untouched)
    (hsub : (anchorRoutes ids d.tree).2.issued ⊆ ids'.issued)
    (h : Outcome d id (anchorRoutes ids d.tree).1
      (anchorFound ids' (anchorRoutes ids d.tree).1).1
      (anchorFound ids' (anchorRoutes ids d.tree).1).1 v d') : Complete d v d' := by
  have hempty := empty_pageSlots hd
  have hfilled := Heading.filled_anchorRoutes ids d.tree
  constructor
  · rw [h.tree]
    exact Heading.anchored_routes_first hempty hsub
  · rw [h.index, h.tree, h.moduleId, navigation, navigation, h.config]
  · rw [keys_of_outcome h (Heading.distinct_anchorRoutes (Slot.Distinct.of_empty ids hempty))
      hfilled, h.tree, Heading.anchors_tops_anchorFound ids' hfilled]

/-- In any order a session leaves index and routes of a page with its headings anchored. -/
theorem session_complete (hd : d.Untouched) {order : List Access}
    (h : session order d = .ok v d') : Complete d v d' := by
  rcases session_outcome hd h with ⟨id, ids, ids', hsub, houtcome⟩ | ⟨id, ids, houtcome⟩
  · exact complete_routes_first hd hsub houtcome
  · have hempty := empty_pageSlots hd
    have hdistinct := Heading.distinct_anchorFound (Slot.Distinct.of_empty ids hempty)
    constructor
    · rw [houtcome.tree]
      exact Heading.anchored_index_first hempty
    · rw [houtcome.index, houtcome.tree, houtcome.moduleId, navigation, navigation,
        houtcome.config, text_find_anchorRoutes]
    · rw [keys_of_outcome houtcome (Heading.distinct_anchorRoutes hdistinct)
        (Heading.filled_anchorRoutes _ _), houtcome.tree]

/-- After a session on a page without anchors the index is made of the headings that it finds, an
entry for each that opens no group, and the ids of the entries are the keys of the routes exactly
if the route headings that it finds are those among the blocks. Unless the page is itself a heading
no route lacks its entry, and the entries of the routes come in the order of the routes. -/
theorem entryIds_eq_keys_iff [Html.Highlighter] {c : Config} {path : Option String}
    {seed : List String} {name : String} {as : Attributes} {cs : List Node}
    (habsent : Anchor.isAbsent (.element name as cs) = true)
    (hd : ofPage c path seed (Page.ofElement name as cs) = .ok d) {order : List Access}
    (h : session order d = .ok v d') :
    let nav := d'.navigation v.moduleId
    let headings := d'.tree.find isHeading
    v.index = nav.text headings ∧
      (nav.lines headings).filter isEntry = (headings.filter fun n => !opensGroup n).map nav.entry ∧
      (entryIds headings = Entries.keys v.routes ↔ found d.tree = tops d.tree) ∧
      (isHeading d.draft.page.name = false →
        (Entries.keys v.routes).Sublist (entryIds headings)) := by
  intro nav headings
  obtain ⟨hpage, hindex, hkeys⟩ := session_complete (untouched_ofPage habsent hd) h
  have hids : entryIds headings = anchors (found d'.tree) :=
    Html.Navigation.entryIds_find (Heading.filled_slots hpage.filled)
  refine ⟨hindex, Html.Navigation.filter_lines nav headings, ?_, fun hname => ?_⟩
  · rw [hids, hkeys]
    exact Heading.anchors_found_eq_tops_iff hpage.listed hpage.places hpage.filled hpage.nodup
  · have hlisted : listed d'.tree = Slot.all := hpage.listed.trans (Heading.listed_other hname)
    rw [hids, hkeys, ← Heading.given_pageSlots_listed, ← Heading.given_pageSlots_tops, hlisted,
      Slot.given_eq_filter Slot.tops]
    exact List.filter_sublist.filterMap _

/-- A page with both of its route headings among its blocks. -/
theorem entryIds_eq_keys_of_two_routes :
    let cs : List Node :=
      [.element "head3" [] [.text "GET /a"], .element "Para" [] [.text "A."],
        .element "head3" [] [.text "GET /b"]]
    ∃ d v d',
      ofPage Config.default none [] (Page.ofElement "Document" [] cs) = .ok d ∧
      session [.index, .routes] d = .ok v d' ∧
      entryIds (d'.tree.find isHeading) = Entries.keys v.routes := by
  intro cs
  have hsession : endsWith cs [.index, .routes] (fun d _ _ =>
      (pageSlots d.tree).all fun s => listed d.tree s.top == s.top) = true := by decide +kernel
  obtain ⟨d, v, d', hd, h, hslots⟩ := of_endsWith hsession
  have hfound : found d.tree = tops d.tree := (Heading.found_eq_tops_iff d.tree).2 fun s hs =>
    eq_of_beq (List.all_eq_true.1 hslots s hs)
  obtain ⟨-, -, hiff, -⟩ := entryIds_eq_keys_iff (by decide +kernel) hd h
  exact ⟨d, v, d', hd, h, hiff.2 hfound⟩

/-- A heading within a paragraph has an entry in the index, and there is no route for it. -/
theorem entry_without_route :
    let cs : List Node := [.element "Para" [] [.element "head3" [] [.text "GET /a"]]]
    ∃ d v d',
      Anchor.isAbsent (.element "Document" [] cs) = true ∧
      ofPage Config.default none [] (Page.ofElement "Document" [] cs) = .ok d ∧
      session [.index, .routes] d = .ok v d' ∧
      v.index = (d'.navigation v.moduleId).text (d'.tree.find isHeading) ∧
      (entryIds (d'.tree.find isHeading)).map Value.shown = ["get-a"] ∧
      v.routes = [] := by
  intro cs
  have hsession : endsWith cs [.index, .routes] (fun _ v d' =>
      v.index = (d'.navigation v.moduleId).text (d'.tree.find isHeading) &&
        (entryIds (d'.tree.find isHeading)).map Value.shown == ["get-a"] && v.routes.isEmpty) =
      true := by
    decide +kernel
  obtain ⟨d, v, d', hd, h, htest⟩ := of_endsWith hsession
  simp only [Bool.and_eq_true, decide_eq_true_eq, beq_iff_eq, List.isEmpty_iff] at htest
  obtain ⟨⟨hindex, hids⟩, hroutes⟩ := htest
  exact ⟨d, v, d', by decide +kernel, hd, h, hindex, hids, hroutes⟩

end
end Document
end RouteDocs
