import RouteDocs.Proofs.Html.NavigationTree

/-!
# What is read of an index

The headings of an index are cut into groups, before each heading that opens one.
The lines for one more heading close the open group and open the next, or add a route
to it: so after any number of headings a reader has the groups of these headings,
and at the end the tree of them all.

Results:
* `leadLines_next`, `leadLines_rest`: one more heading, and all that follow.
* `anchored_spec`: headings without anchors get plain ones, and stay what they are.
* `countClass_indexTree`: the link to the whole document stands in an index once, or not at all.
* `ofHeadings_reads`: what is read of an index.
-/
namespace RouteDocs.Html.Navigation

/-! ## Headings in groups -/

/-- What an index has of a heading: whether it opens a group, and its text. -/
def outline (n : Node) : Bool × List Char :=
  (opensGroup n, n.flatten.toList)

/-- What a group has of its headings, in order. -/
def Group.outline (g : Group) : List (Bool × List Char) :=
  g.header.toList.map (true, ·) ++ g.routes.map fun e => (false, e.text)

/-- Groups hold headings: one header for each heading that opens a group, and one route for each
other, all of them in order. Only the first group may do without a header, and none is empty. -/
structure Groups (groups : List Group) (headings : List Node) : Prop where
  outline_eq : groups.flatMap Group.outline = headings.map outline
  headed : ∀ g ∈ groups.tail, g.header.isSome = true
  ne_nil : ∀ g ∈ groups, g.outline ≠ []

namespace Groups

variable {closed : List Group} {g : Group} {headings : List Node} {n : Node}

theorem mem_tail_concat {g' : Group} :
    g' ∈ (closed ++ [g]).tail ↔ g' ∈ closed.tail ∨ closed ≠ [] ∧ g' = g := by
  cases closed with
  | nil => simp
  | cons first rest => simp

theorem open_next (h : Groups closed headings) (hn : opensGroup n = true) :
    Groups (closed ++ [⟨some n.flatten.toList, []⟩]) (headings ++ [n]) := by
  refine ⟨?_, fun g hg => ?_, fun g hg => ?_⟩
  · rw [List.flatMap_append, h.outline_eq, List.map_append, List.map_singleton, outline, hn]
    rfl
  · rcases mem_tail_concat.1 hg with hg | ⟨-, rfl⟩
    · exact h.headed g hg
    · rfl
  · rcases List.mem_append.1 hg with hg | hg
    · exact h.ne_nil g hg
    · rw [List.mem_singleton.1 hg]
      exact List.cons_ne_nil _ _

theorem add_route {e : RouteEntry} (h : Groups (closed ++ [g]) headings)
    (hn : opensGroup n = false) (htext : e.text = n.flatten.toList) :
    Groups (closed ++ [⟨g.header, g.routes ++ [e]⟩]) (headings ++ [n]) := by
  have hadded : Group.outline ⟨g.header, g.routes ++ [e]⟩ = g.outline ++ [outline n] := by
    rw [Group.outline, Group.outline, List.map_append, ← List.append_assoc, outline, hn, ← htext]
    rfl
  refine ⟨?_, fun g' hg => ?_, fun g' hg => ?_⟩
  · have houtline := h.outline_eq
    rw [List.flatMap_append, List.flatMap_singleton] at houtline
    rw [List.flatMap_append, List.flatMap_singleton, hadded, ← List.append_assoc, houtline,
      List.map_append]
    rfl
  · rcases mem_tail_concat.1 hg with hg | ⟨hne, rfl⟩
    · exact h.headed g' (mem_tail_concat.2 (.inl hg))
    · exact h.headed g (mem_tail_concat.2 (.inr ⟨hne, rfl⟩))
  · rcases List.mem_append.1 hg with hg | hg
    · exact h.ne_nil g' (List.mem_append_left _ hg)
    · rw [List.mem_singleton.1 hg, hadded]
      exact List.append_ne_nil_of_right_ne_nil _ (List.cons_ne_nil _ _)

end Groups

/-! ## Lines of headings -/

section
variable {nav : Navigation} {closed : List Group} {g : Group} {headings : List Node}

theorem leadLines_first (hnav : nav.IsPlain) {n : Node} (hn : IsListable n) :
    ∃ g, LeadLines .start (nav.firstLines n) (nav.inGroup [] g) ∧ Groups [g] [n] := by
  have hempty : Groups [] [] := ⟨rfl, List.forall_mem_nil _, List.forall_mem_nil _⟩
  rw [firstLines]
  cases hopens : opensGroup n with
  | true =>
    exact ⟨_, (leadLines_start nav).append (leadLines_header hnav [] n), hempty.open_next hopens⟩
  | false =>
    obtain ⟨e, htext, hentry⟩ := leadLines_entry hnav hn hopens
    refine ⟨⟨none, [e]⟩, ((leadLines_start nav).append (leadLines_headless hnav [])).append
      (hentry [] ⟨none, []⟩), ?_, List.forall_mem_nil _, ?_⟩
    · rw [List.map_singleton, outline, hopens, ← htext]
      rfl
    · exact List.forall_mem_singleton.2 (List.cons_ne_nil _ _)

/-- The lines for one more heading. -/
theorem leadLines_next (hnav : nav.IsPlain) {n : Node} (hn : IsListable n)
    (h : Groups (closed ++ [g]) headings) :
    ∃ closed' g', LeadLines (nav.inGroup closed g) (nav.nextLines n) (nav.inGroup closed' g') ∧
      Groups (closed' ++ [g']) (headings ++ [n]) := by
  rw [nextLines]
  cases hopens : opensGroup n with
  | true =>
    have hheader := leadLines_header hnav (closed ++ [g]) n
    rw [if_neg (by simp)] at hheader
    exact ⟨_, _, (leadLines_close nav closed g).append hheader, h.open_next hopens⟩
  | false =>
    obtain ⟨e, htext, hentry⟩ := leadLines_entry hnav hn hopens
    exact ⟨_, _, hentry closed g, h.add_route hopens htext⟩

/-- The lines for all the headings that follow. -/
theorem leadLines_rest (hnav : nav.IsPlain) {rest : List Node} (hrest : ∀ n ∈ rest, IsListable n)
    (h : Groups (closed ++ [g]) headings) :
    ∃ closed' g', LeadLines (nav.inGroup closed g) (rest.flatMap nav.nextLines)
      (nav.inGroup closed' g') ∧ Groups (closed' ++ [g']) (headings ++ rest) := by
  induction rest generalizing closed g headings with
  | nil => exact ⟨closed, g, .nil _, by rwa [List.append_nil]⟩
  | cons n rest ih =>
    obtain ⟨hn, hrest⟩ := List.forall_mem_cons.1 hrest
    obtain ⟨closed₁, g₁, hnext, h₁⟩ := leadLines_next hnav hn h
    obtain ⟨closed₂, g₂, hlines, h₂⟩ := ih hrest h₁
    rw [List.append_assoc] at h₂
    exact ⟨closed₂, g₂, hnext.append hlines, h₂⟩

theorem leadLines_lines (hnav : nav.IsPlain) (hne : headings ≠ [])
    (hlistable : ∀ n ∈ headings, IsListable n) :
    ∃ groups, LeadLines .start (nav.lines headings) ⟨[], [nav.indexTree groups], []⟩ ∧
      Groups groups headings := by
  obtain ⟨n, rest, rfl⟩ := List.exists_cons_of_ne_nil hne
  obtain ⟨hn, hrest⟩ := List.forall_mem_cons.1 hlistable
  obtain ⟨g, hfirst, h⟩ := leadLines_first hnav hn
  have hfirstGroups : Groups ([] ++ [g]) [n] := h
  obtain ⟨closed, g', hlines, h'⟩ := leadLines_rest hnav hrest hfirstGroups
  exact ⟨closed ++ [g'], (hfirst.append hlines).append
    ((leadLines_close nav closed g').append (leadLines_end nav _)), h'⟩

end

/-! ## The link to the whole document -/

section
variable (nav : Navigation)

def documentClass : List Char := "pod-link showpanel".toList

theorem countClassAll_textNodes (u : List Char) :
    PageNode.countClassAll documentClass (textNodes u) = 0 := by
  rw [textNodes]
  split <;> rfl

theorem countClassAll_shown (e : RouteEntry) :
    PageNode.countClassAll documentClass e.shown = 0 := by
  rw [RouteEntry.shown]
  split
  · exact countClassAll_textNodes _
  · rw [PageNode.countClassAll_append, countClassAll_textNodes, PageNode.countClassAll,
      countClassAll_textNodes]
    rfl

theorem countClass_headerTree (text : List Char) :
    (nav.headerTree text).countClass documentClass = 0 := by
  rw [headerTree, PageNode.countClass, countClassAll_textNodes]
  rfl

theorem countClass_routeTree (e : RouteEntry) : (nav.routeTree e).countClass documentClass = 0 := by
  rw [routeTree, PageNode.countClass, PageNode.countClassAll, PageNode.countClass,
    countClassAll_shown]
  rfl

theorem countClass_groupTree (isFirst : Bool) (g : Group) :
    (nav.groupTree isFirst g).countClass documentClass =
      if isFirst && g.header.isSome then 1 else 0 := by
  have hroutes : PageNode.countClassAll documentClass (g.routes.map nav.routeTree) = 0 := by
    refine PageNode.countClassAll_eq_zero fun n hn => ?_
    obtain ⟨e, -, rfl⟩ := List.mem_map.1 hn
    exact countClass_routeTree nav e
  have htop : PageNode.countClassAll documentClass (nav.topTrees isFirst g) =
      if isFirst && g.header.isSome then 1 else 0 := by
    rw [topTrees]
    cases g.header with
    | none => cases isFirst <;> rfl
    | some text =>
      dsimp only
      rw [PageNode.countClassAll_append, PageNode.countClassAll, countClass_headerTree]
      cases isFirst <;> rfl
  rw [groupTree, PageNode.countClass, PageNode.countClassAll_append, htop, PageNode.countClassAll,
    PageNode.countClass, hroutes]
  exact Nat.zero_add _

/-- The link to the whole document stands in an index once if the first group has a header, and
else not at all. -/
theorem countClass_indexTree (groups : List Group) :
    (nav.indexTree groups).countClass documentClass =
      if groups.head?.any (·.header.isSome) then 1 else 0 := by
  cases groups with
  | nil => rfl
  | cons first rest =>
    have hrest : PageNode.countClassAll documentClass (rest.map (nav.groupTree false)) = 0 := by
      refine PageNode.countClassAll_eq_zero fun n hn => ?_
      obtain ⟨g, -, rfl⟩ := List.mem_map.1 hn
      exact countClass_groupTree nav false g
    rw [indexTree, PageNode.countClass, groupTrees, PageNode.countClassAll, countClass_groupTree,
      hrest]
    exact Nat.zero_add _

theorem Groups.head?_header {groups : List Group} {headings : List Node}
    (h : Groups groups headings) :
    groups.head?.any (·.header.isSome) = headings.head?.any opensGroup := by
  have houtline := h.outline_eq
  cases groups with
  | nil =>
    obtain rfl := List.map_eq_nil_iff.1 houtline.symm
    rfl
  | cons g rest =>
    have hne := h.ne_nil g List.mem_cons_self
    obtain ⟨header, routes⟩ := g
    cases headings with
    | nil => exact absurd (List.append_eq_nil_iff.1 houtline).1 hne
    | cons n more =>
      rw [List.flatMap_cons, List.map_cons] at houtline
      cases header with
      | some text => exact (congrArg Prod.fst (List.cons.inj houtline).1)
      | none =>
        cases routes with
        | nil => exact absurd rfl hne
        | cons e routes => exact (congrArg Prod.fst (List.cons.inj houtline).1)

end

/-! ## Text -/

theorem visibleAll_textNodes (u : List Char) : PageNode.visibleAll (textNodes u) = u := by
  rw [textNodes]
  split
  · rename_i hu
    exact hu.symm
  · exact List.append_nil u

theorem visible_headerTree (nav : Navigation) (text : List Char) :
    (nav.headerTree text).visible = text :=
  visibleAll_textNodes text

theorem visible_routeTree (nav : Navigation) (e : RouteEntry) : (nav.routeTree e).visible = e.text := by
  have hshown : PageNode.visibleAll e.shown = e.text := by
    rw [RouteEntry.shown]
    split
    · exact visibleAll_textNodes _
    · rw [PageNode.visibleAll_append, PageNode.visibleAll, visibleAll_textNodes,
        visibleAll_textNodes, RouteEntry.text]
      congr 2
      exact List.append_nil _
  exact (List.append_nil _).trans hshown

/-! ## Headings without anchors -/

/-- A heading of an index: it opens a group, or it is a route, without an anchor. -/
def IsUnanchored (n : Node) : Prop :=
  n.isA .head1 = true ∨ n.isA .head3 = true ∧ Anchor.ofAttributes? n.attributes = none

/-- A heading, with its anchor if it is a route. -/
def withAnchor (ids : Identifiers) (n : Node) : Node × Identifiers :=
  if opensGroup n then (n, ids) else Anchor.ensureNode ids n

theorem anchored_cons (ids : Identifiers) {n : Node} (hn : IsUnanchored n) (rest : List Node) :
    (anchored ids (n :: rest)).1 =
      (anchored (withAnchor ids n).2 rest).1.map ((withAnchor ids n).1 :: ·) := by
  obtain ⟨name, as, cs, rfl⟩ : ∃ name as cs, n = .element name as cs := by
    rcases hn with h | ⟨h, -⟩ <;> exact ⟨_, Node.isA_iff.1 h⟩
  rfl

/-- A heading with its anchor can be listed, and has the text it had. -/
theorem withAnchor_spec (ids : Identifiers) {n : Node} (hn : IsUnanchored n) :
    outline (withAnchor ids n).1 = outline n ∧ IsListable (withAnchor ids n).1 := by
  rw [withAnchor]
  cases hopens : opensGroup n with
  | true =>
    rw [if_pos rfl]
    refine ⟨rfl, fun h => ?_⟩
    rw [hopens] at h
    cases h
  | false =>
    rcases hn with h | ⟨h, hnone⟩
    · rw [opensGroup, h] at hopens
      cases hopens
    · obtain ⟨as, cs, rfl⟩ := Node.isA_iff.1 h
      have hensured : Anchor.ensureNode ids (.element Kind.head3.name as cs) = _ :=
        Anchor.ensureNode_of_none ids hnone
      rw [if_neg Bool.false_ne_true, hensured]
      refine ⟨rfl, fun _ => ⟨ids.fresh (Node.flattenAll cs), ?_, fun c hc =>
        notMem_special_of_isAllowed (Identifiers.isAllowed_of_mem_fresh hc)⟩⟩
      rw [Anchor.ofNode, Node.attributes, Anchor.ofAttributes?_put]
      rfl

/-- Headings without anchors get plain ones, and stay what they are. -/
theorem anchored_spec (ids : Identifiers) {headings : List Node}
    (h : ∀ n ∈ headings, IsUnanchored n) :
    ∃ listed, (anchored ids headings).1 = some listed ∧
      listed.map outline = headings.map outline ∧ ∀ n ∈ listed, IsListable n := by
  induction headings generalizing ids with
  | nil => exact ⟨[], rfl, rfl, List.forall_mem_nil _⟩
  | cons n rest ih =>
    obtain ⟨hn, hrest⟩ := List.forall_mem_cons.1 h
    obtain ⟨listed, hlisted, houtline, hall⟩ := ih (withAnchor ids n).2 hrest
    obtain ⟨hsame, hlistable⟩ := withAnchor_spec ids hn
    refine ⟨(withAnchor ids n).1 :: listed, ?_, ?_, List.forall_mem_cons.2 ⟨hlistable, hall⟩⟩
    · rw [anchored_cons ids hn, hlisted]
      rfl
    · rw [List.map_cons, List.map_cons, hsame, houtline]

/-! ## Indexes -/

theorem isPlain_default {nav : Navigation} (hconfig : nav.config = RenderConfig.default)
    (hid : ∀ c ∈ nav.moduleId.toList, Identifier.isAllowed c = true) : nav.IsPlain := by
  refine ⟨?_, fun c hc => notMem_special_of_isAllowed (hid c hc), ?_⟩
  · rw [hconfig]
    decide
  · rw [hconfig]
    exact plainMethods_default

/-- An index of headings without anchors is read as its groups.

Its tags are balanced, and every line is indented by the lists that are open. Each heading of level
one is the header of a group, and each route an entry in the group of the last header before it, or
in a first group without a header. The link to the whole document stands in the index once if the
first heading opens a group, and else not at all. Headers and entries show the texts of their
headings, and the title of an entry is its text. -/
theorem ofHeadings_reads (nav : Navigation) (ids : Identifiers) (headings : List Node)
    (hconfig : nav.config = RenderConfig.default)
    (hid : ∀ c ∈ nav.moduleId.toList, Identifier.isAllowed c = true)
    (hheadings : ∀ n ∈ headings, IsUnanchored n) :
    ∃ listed, (anchored ids headings).1 = some listed ∧
      (nav.ofHeadings ids headings).1 = some (nav.text listed) ∧
      (headings = [] → nav.text listed = "") ∧
      (headings ≠ [] →
        isBalanced (nav.text listed).toList = true ∧
        IsIndented (nav.lines listed) ∧
        (IndentedLines.empty.add (nav.lines listed)).depth = 0 ∧
        ∃ groups, Groups groups headings ∧
          readTree (nav.text listed).toList = some [nav.indexTree groups] ∧
          (nav.indexTree groups).countClass documentClass =
            (if headings.head?.any opensGroup then 1 else 0) ∧
          ∀ g ∈ groups, (∀ text ∈ g.header, (nav.headerTree text).visible = text) ∧
            ∀ e ∈ g.routes, (nav.routeTree e).visible = e.text) := by
  have hnav := isPlain_default hconfig hid
  obtain ⟨listed, hlisted, houtline, hlistable⟩ := anchored_spec ids hheadings
  refine ⟨listed, hlisted, ?_, ?_, fun hne => ?_⟩
  · have hmap : (nav.ofHeadings ids headings).1 = (anchored ids headings).1.map nav.text := rfl
    rw [hmap, hlisted]
    rfl
  · rintro rfl
    obtain rfl := List.map_eq_nil_iff.1 houtline
    rfl
  · have hne' : listed ≠ [] := by
      rintro rfl
      exact hne (List.map_eq_nil_iff.1 houtline.symm)
    obtain ⟨groups, hlines, hgroups⟩ := leadLines_lines hnav hne' hlistable
    have hheld : Groups groups headings :=
      ⟨hgroups.outline_eq.trans houtline, hgroups.headed, hgroups.ne_nil⟩
    have htree : readTree (nav.text listed).toList = some [nav.indexTree groups] := by
      rw [readTree, text, hlines.read?_text]
      rfl
    refine ⟨isBalanced_of_readTree htree, hlines.isIndented, hlines.depth_add rfl, groups, hheld,
      htree, ?_, fun g _ => ⟨fun text _ => visible_headerTree nav text,
        fun e _ => visible_routeTree nav e⟩⟩
    rw [countClass_indexTree, hheld.head?_header]

/-- Texts of headings that look like tags, entities and methods are read as they are. -/
theorem ofHeadings_reads_of_markup :
    let nav : Navigation := ⟨RenderConfig.default, "shop"⟩
    let headings : List Node := [
      .element "head3" [] [.text "<ul> &quot;get&quot; </a>"],
      .element "head1" [] [.text "A \"list\" of <li>"],
      .element "head3" [("label", .text "a")] [.text "/any'", .element "C" [] [.text "</ul>"]]]
    nav.config = RenderConfig.default ∧
      (∀ c ∈ nav.moduleId.toList, Identifier.isAllowed c = true) ∧
      (∀ n ∈ headings, IsUnanchored n) ∧
      ∃ text tree, (nav.ofHeadings ⟨[], "pod"⟩ headings).1 = some text ∧
        isBalanced text.toList = true ∧ readTree text.toList = some [tree] ∧
        tree.countClass documentClass = 0 := by
  intro nav headings
  have hid : ∀ c ∈ nav.moduleId.toList, Identifier.isAllowed c = true := by decide
  have hheadings : ∀ n ∈ headings, IsUnanchored n :=
    List.forall_mem_cons.2 ⟨.inr ⟨rfl, rfl⟩, List.forall_mem_cons.2 ⟨.inl rfl,
      List.forall_mem_singleton.2 (.inr ⟨rfl, rfl⟩)⟩⟩
  obtain ⟨listed, -, htext, -, hread⟩ :=
    ofHeadings_reads nav ⟨[], "pod"⟩ headings rfl hid hheadings
  obtain ⟨hbalanced, -, -, groups, -, htree, hcount, -⟩ := hread (List.cons_ne_nil _ _)
  exact ⟨rfl, hid, hheadings, nav.text listed, nav.indexTree groups, htext, hbalanced, htree, hcount⟩

example : ((⟨RenderConfig.default, "shop"⟩ : Navigation).ofHeadings ⟨[], "pod"⟩
    [.element "head3" [] [.text "GET /widgets"]]).1 = some (
      "<ul>\n" ++
      "  <li>\n" ++
      "    <ul class=\"collapse route-list shop\">\n" ++
      "      <li><a href=\"#!/get-widgets\" class=\"showpanel\" id=\"get-widgets\"" ++
      " title=\"GET /widgets\"><i>GET</i> /widgets</a></li>\n" ++
      "    </ul>\n" ++
      "  </li>\n" ++
      "</ul>\n") := by
  decide +kernel

end RouteDocs.Html.Navigation
