import RouteDocs.Proofs.Allocation
import RouteDocs.Proofs.Anchor
import RouteDocs.Proofs.Html.Indentation
import RouteDocs.Proofs.Html.MethodNames

/-!
# The tree of an index

An index is read as a list of groups. Each is a list item with the header of the
group, if it has one, and the list of its routes. What a reader keeps between two
lines is told by the groups that are closed and the one that is open. The lines
for a heading lead it from one such state to another, in step with the
count of open lists.

Results:
* `entry_toList`: the entry of a route is elements around the text of the route.
* `leadLines_header`, `leadLines_headless`: a group is opened.
* `leadLines_entry`: a group gets one more route.
* `leadLines_close`: a group is closed.
-/
namespace RouteDocs.Html.Navigation

/-! ## Groups -/

/-- A route in an index: its anchor, and its text, in which a method may be set in italics. -/
structure RouteEntry where
  anchor : List Char
  before : List Char
  method : List Char
  after : List Char

/-- A group of an index: the text of its header, if it has one, and its routes. -/
structure Group where
  header : Option (List Char)
  routes : List RouteEntry

def RouteEntry.text (e : RouteEntry) : List Char :=
  e.before ++ (e.method ++ e.after)

/-! ## Trees -/

def textNodes (u : List Char) : List PageNode :=
  if u = [] then [] else [.text u]

/-- What the link to a route shows. -/
def RouteEntry.shown (e : RouteEntry) : List PageNode :=
  if e.method = [] then textNodes e.text
  else textNodes e.before ++ .element "i".toList [] [.text e.method] :: textNodes e.after

section
variable (nav : Navigation)

def foldList : List (List Char × List Char) :=
  [("data-toggle".toList, "collapse".toList), ("data-target".toList, '.' :: nav.moduleId.toList),
    ("data-parent".toList, nav.config.sidebarSelector.toList)]

def documentAttributes : List (List Char × List Char) :=
  ("href".toList, nav.config.anchorPrefix.toList ++ nav.moduleId.toList ++ "-pod".toList) ::
    nav.foldList ++ [("id".toList, nav.moduleId.toList), ("class".toList, "pod-link showpanel".toList)]

def headerAttributes : List (List Char × List Char) :=
  ("href".toList, nav.config.anchorPrefix.toList ++ nav.moduleId.toList) ::
    nav.foldList ++ [("class".toList, "sidebar-header".toList)]

def routeListAttributes : List (List Char × List Char) :=
  [("class".toList, "collapse route-list ".toList ++ nav.moduleId.toList)]

def routeAttributes (e : RouteEntry) : List (List Char × List Char) :=
  [("href".toList, nav.config.anchorPrefix.toList ++ e.anchor),
    ("class".toList, "showpanel".toList), ("id".toList, e.anchor), ("title".toList, e.text)]

def documentTree : PageNode :=
  .element "a".toList nav.documentAttributes [.text "Full POD".toList]

def headerTree (text : List Char) : PageNode :=
  .element "a".toList nav.headerAttributes (textNodes text)

def routeTree (e : RouteEntry) : PageNode :=
  .element "li".toList [] [.element "a".toList (nav.routeAttributes e) e.shown]

/-- What stands before the routes of a group: its header, after the link to the whole document if
the group is the first. -/
def topTrees (isFirst : Bool) (g : Group) : List PageNode :=
  match g.header with
  | none => []
  | some text => (if isFirst then [nav.documentTree] else []) ++ [nav.headerTree text]

def groupTree (isFirst : Bool) (g : Group) : PageNode :=
  .element "li".toList [] (nav.topTrees isFirst g ++
    [.element "ul".toList nav.routeListAttributes (g.routes.map nav.routeTree)])

def groupTrees : List Group → List PageNode
  | [] => []
  | g :: rest => nav.groupTree true g :: rest.map (nav.groupTree false)

def indexTree (groups : List Group) : PageNode :=
  .element "ul".toList [] (nav.groupTrees groups)

end

/-! ## Text between tags -/

theorem escapeChars_eq_nil_iff {quotes : Bool} {u : List Char} :
    escapeChars quotes u = [] ↔ u = [] := by
  constructor
  · intro h
    rw [← unescape_escapeChars_eq quotes u, h]
    rfl
  · rintro rfl
    rfl

theorem settled_escapeChars (quotes : Bool) (opened : List OpenElement) (nodes : List PageNode)
    (u : List Char) :
    (PageReader.mk opened nodes (escapeChars quotes u).reverse).settled = textNodes u ++ nodes := by
  rw [PageReader.settled, textNodes]
  by_cases hu : u = []
  · rw [hu]
    rfl
  · have hne : (escapeChars quotes u).reverse.isEmpty = false := by
      rw [List.isEmpty_eq_false_iff, List.reverse_ne_nil_iff]
      exact fun h => hu (escapeChars_eq_nil_iff.1 h)
    rw [if_neg (by rw [hne]; exact Bool.false_ne_true), if_neg hu, List.reverse_reverse,
      unescape_escapeChars_eq]
    rfl

theorem reverse_textNodes (u : List Char) : (textNodes u).reverse = textNodes u := by
  rw [textNodes]
  split <;> rfl

section
variable {opened : List OpenElement} {nodes : List PageNode} {held : List Char}

/-- Escaped text where blanks are text. -/
theorem inStep_escapeChars (quotes : Bool) (u : List Char)
    (hlayout : (PageReader.mk opened nodes held).inLayout = false) :
    InStep ⟨opened, nodes, held⟩ (escapeChars quotes u)
      ⟨opened, nodes, (escapeChars quotes u).reverse ++ held⟩ :=
  .text (bracket_notMem_escapeChars quotes u) hlayout

theorem inStep_textElement (quotes : Bool) {name : List Char} (hname : name ∈ linkListNames)
    (hlist : isListName name = false) {as : List (List Char × List Char)} (has : AreNamed as)
    (u : List Char) (r : PageReader) :
    InStep r (openingChars name as ++ (escapeChars quotes u ++ closingChars name))
      (r.addElement name as (textNodes u)) := by
  have hinner : InStep (r.enter name as) (escapeChars quotes u)
      ⟨⟨name, as, r.settled⟩ :: r.opened, [], (escapeChars quotes u).reverse ++ []⟩ :=
    inStep_escapeChars quotes u hlist
  have helement := InStep.element hname has hinner
  rwa [List.append_nil, settled_escapeChars, List.append_nil, reverse_textNodes] at helement

theorem inStep_shown (hlayout : ∀ nodes held, (PageReader.mk opened nodes held).inLayout = false)
    (e : RouteEntry) :
    ∃ nodes held, InStep ⟨opened, [], []⟩
      (escapeChars true e.before ++ (italics e.method ++ escapeChars true e.after))
      ⟨opened, nodes, held⟩ ∧
      (PageReader.mk opened nodes held).settled.reverse = e.shown := by
  have hbefore := inStep_escapeChars true e.before (hlayout [] [])
  rw [List.append_nil] at hbefore
  rw [italics, RouteEntry.shown]
  split
  · -- without a method, the texts before and after it are one text
    rename_i hnone
    have hafter := inStep_escapeChars true e.after (hlayout [] (escapeChars true e.before).reverse)
    refine ⟨_, _, hbefore.append hafter, ?_⟩
    rw [← List.reverse_append, ← escapeChars_append, settled_escapeChars, List.append_nil,
      reverse_textNodes, RouteEntry.text, hnone, List.nil_append]
  · rename_i hsome
    have hitalics := inStep_textElement true mem_i rfl areNamed_nil e.method
      ⟨opened, [], (escapeChars true e.before).reverse⟩
    rw [PageReader.addElement, settled_escapeChars, textNodes, if_neg hsome] at hitalics
    have hafter := inStep_escapeChars true e.after
      (hlayout (.element "i".toList [] [.text e.method] :: (textNodes e.before ++ [])) [])
    refine ⟨_, _, hbefore.append (hitalics.append hafter), ?_⟩
    rw [List.append_nil, List.append_nil, settled_escapeChars, List.reverse_append,
      List.reverse_cons, reverse_textNodes, reverse_textNodes, List.append_assoc]
    rfl

end

/-! ## Lines -/

/-- What an index relies on: the prefix of its links and the identifier of its module hold no
character with a meaning of its own, and its methods keep clear of entities. -/
structure IsPlain (nav : Navigation) : Prop where
  anchorPrefix : ∀ c ∈ nav.config.anchorPrefix.toList, c ∉ special
  moduleId : ∀ c ∈ nav.moduleId.toList, c ∉ special
  methods : PlainMethods (methodTexts nav.config.routeMethods)

/-- A heading that can be listed: it opens a group, or has an anchor without special characters. -/
def IsListable (n : Node) : Prop :=
  opensGroup n = false →
    ∃ anchor : String, Anchor.ofNode n = .text anchor ∧ ∀ c ∈ anchor.toList, c ∉ special

section
variable {nav : Navigation} {n : Node}

theorem escapeChars_append_of_plain {s t : List Char} (hs : ∀ c ∈ s, c ∉ special)
    (ht : ∀ c ∈ t, c ∉ special) : escapeChars true (s ++ t) = s ++ t :=
  escapeChars_of_plain (List.forall_mem_append.2 ⟨hs, ht⟩)

theorem documentLink_toList (hnav : nav.IsPlain) :
    nav.documentLink.toList = openingChars "a".toList nav.documentAttributes ++
      (escapeChars false "Full POD".toList ++ closingChars "a".toList) := by
  -- the values that are not fixed are written as they are, escaped or not
  have hid := escapeChars_of_plain hnav.moduleId
  have htarget := escapeChars_append_of_plain (s := ['.']) (by decide) hnav.moduleId
  have hlink := escapeChars_append_of_plain (t := "-pod".toList)
    (List.forall_mem_append.2 ⟨hnav.anchorPrefix, hnav.moduleId⟩) (by decide)
  rw [List.singleton_append] at htarget
  simp only [openingChars, documentAttributes, foldList, attributesChars, List.cons_append,
    List.nil_append, List.flatMap_cons, attributeChars, hid, htarget, hlink]
  unfold documentLink foldAttributes
  simp [escape]
  rfl

theorem header_toList (hnav : nav.IsPlain) (n : Node) :
    (nav.header n).toList = openingChars "a".toList nav.headerAttributes ++
      (escapeChars false n.flatten.toList ++ closingChars "a".toList) := by
  have htarget := escapeChars_append_of_plain (s := ['.']) (by decide) hnav.moduleId
  have hlink := escapeChars_append_of_plain hnav.anchorPrefix hnav.moduleId
  rw [List.singleton_append] at htarget
  simp only [openingChars, headerAttributes, foldList, attributesChars, List.cons_append,
    List.nil_append, List.flatMap_cons, attributeChars, htarget, hlink]
  unfold header foldAttributes
  simp [escape]
  rfl

theorem routeListTag_toList (hnav : nav.IsPlain) :
    nav.routeListTag.toList = openingChars "ul".toList nav.routeListAttributes := by
  have hclass := escapeChars_append_of_plain (s := "collapse route-list ".toList) (by decide)
    hnav.moduleId
  simp only [openingChars, routeListAttributes, attributesChars, List.flatMap_cons, attributeChars,
    hclass]
  unfold routeListTag
  simp

/-- The entry of a route, by what its link shows. -/
theorem entry_toList (hnav : nav.IsPlain) (hn : IsListable n) (hopens : opensGroup n = false) :
    ∃ e : RouteEntry, e.text = n.flatten.toList ∧ (nav.entry n).toList =
      openingChars "li".toList [] ++ ((openingChars "a".toList (nav.routeAttributes e) ++
        ((escapeChars true e.before ++ (italics e.method ++ escapeChars true e.after)) ++
          closingChars "a".toList)) ++ closingChars "li".toList) := by
  obtain ⟨anchor, hanchor, hplain⟩ := hn hopens
  obtain ⟨u, w, v, hsplit, hstyled⟩ := styleMethod_escapeChars hnav.methods none n.flatten.toList
  refine ⟨⟨anchor.toList, u, w, v⟩, hsplit.symm, ?_⟩
  have hid := escapeChars_of_plain hplain
  have hlink := escapeChars_append_of_plain hnav.anchorPrefix hplain
  simp only [openingChars, routeAttributes, RouteEntry.text, ← hsplit, attributesChars,
    List.flatMap_cons, List.flatMap_nil, attributeChars, hid, hlink]
  unfold entry
  simp only [hanchor, Value.shown, hstyled]
  simp [closingChars]
  rfl

theorem areNamed_documentAttributes (nav : Navigation) : AreNamed nav.documentAttributes := by
  simp [AreNamed, documentAttributes, foldList, isAttributeName]

theorem areNamed_headerAttributes (nav : Navigation) : AreNamed nav.headerAttributes := by
  simp [AreNamed, headerAttributes, foldList, isAttributeName]

theorem areNamed_routeListAttributes (nav : Navigation) : AreNamed nav.routeListAttributes := by
  simp [AreNamed, routeListAttributes, isAttributeName]

theorem areNamed_routeAttributes (nav : Navigation) (e : RouteEntry) :
    AreNamed (nav.routeAttributes e) := by
  simp [AreNamed, routeAttributes, isAttributeName]

theorem inStep_documentLink (hnav : nav.IsPlain) (r : PageReader) :
    InStep r nav.documentLink.toList
      (r.addElement "a".toList nav.documentAttributes [.text "Full POD".toList]) := by
  rw [documentLink_toList hnav]
  exact inStep_textElement false mem_a rfl (areNamed_documentAttributes nav) _ r

theorem inStep_header (hnav : nav.IsPlain) (n : Node) (r : PageReader) :
    InStep r (nav.header n).toList
      (r.addElement "a".toList nav.headerAttributes (textNodes n.flatten.toList)) := by
  rw [header_toList hnav]
  exact inStep_textElement false mem_a rfl (areNamed_headerAttributes nav) _ r

theorem inStep_routeListTag (hnav : nav.IsPlain) (r : PageReader) :
    InStep r nav.routeListTag.toList (r.enter "ul".toList nav.routeListAttributes) := by
  rw [routeListTag_toList hnav]
  exact .opening mem_ul (areNamed_routeListAttributes nav) r

theorem inStep_entry (hnav : nav.IsPlain) (hn : IsListable n) (hopens : opensGroup n = false) :
    ∃ e : RouteEntry, e.text = n.flatten.toList ∧ ∀ r : PageReader, InStep r (nav.entry n).toList
      (r.addElement "li".toList [] [.element "a".toList (nav.routeAttributes e) e.shown]) := by
  obtain ⟨e, htext, hentry⟩ := entry_toList hnav hn hopens
  refine ⟨e, htext, fun r => ?_⟩
  have hlayout : ∀ nodes held, (PageReader.mk (⟨"a".toList, nav.routeAttributes e, []⟩ ::
      (r.enter "li".toList []).opened) nodes held).inLayout = false := fun _ _ => rfl
  obtain ⟨nodes, held, hinner, hshown⟩ := inStep_shown hlayout e
  have hlink := InStep.element (r := r.enter "li".toList []) mem_a
    (areNamed_routeAttributes nav e) hinner
  have hchildren : (PageReader.mk (r.enter "li".toList []).opened nodes held).settled.reverse =
      e.shown := hshown
  rw [hchildren] at hlink
  rw [hentry]
  exact InStep.element mem_li areNamed_nil hlink

end

/-! ## Between the lines -/

section
variable {nav : Navigation}

/-- What a reader keeps when some groups are closed. -/
def betweenGroups (nav : Navigation) (groups : List Group) : PageReader :=
  ⟨[⟨"ul".toList, [], []⟩], (nav.groupTrees groups).reverse, []⟩

def inGroup (nav : Navigation) (closed : List Group) (g : Group) : PageReader :=
  ⟨[⟨"ul".toList, nav.routeListAttributes, (nav.topTrees closed.isEmpty g).reverse⟩,
    ⟨"li".toList, [], (nav.groupTrees closed).reverse⟩, ⟨"ul".toList, [], []⟩],
    (g.routes.map nav.routeTree).reverse, []⟩

theorem groupTrees_concat (nav : Navigation) (closed : List Group) (g : Group) :
    nav.groupTrees (closed ++ [g]) =
      nav.groupTrees closed ++ [nav.groupTree closed.isEmpty g] := by
  cases closed with
  | nil => rfl
  | cons first rest =>
    rw [List.cons_append, groupTrees, groupTrees, List.map_append, List.cons_append]
    rfl

/-- The list of groups is opened. -/
theorem leadLines_start (nav : Navigation) :
    LeadLines .start ["<ul>"] (nav.betweenGroups []) :=
  .single (.opening mem_ul areNamed_nil .start) rfl

/-- A group is opened whose routes have no header. -/
theorem leadLines_headless (hnav : nav.IsPlain) (closed : List Group) :
    LeadLines (nav.betweenGroups closed) ["<li>", nav.routeListTag]
      (nav.inGroup closed ⟨none, []⟩) :=
  .cons (.opening mem_li areNamed_nil _) rfl
    (.single (inStep_routeListTag hnav _) rfl)

/-- A group is opened with its header, and the first of them with the link to the document. -/
theorem leadLines_header (hnav : nav.IsPlain) (closed : List Group) (n : Node) :
    LeadLines (nav.betweenGroups closed)
      ("<li>" :: ((if closed.isEmpty then [nav.documentLink] else []) ++
        [nav.header n, nav.routeListTag]))
      (nav.inGroup closed ⟨some n.flatten.toList, []⟩) := by
  have hitem := InStep.opening mem_li areNamed_nil (nav.betweenGroups closed)
  cases closed with
  | nil =>
    exact .cons hitem rfl (.cons (inStep_documentLink hnav _) rfl
      (.cons (inStep_header hnav n _) rfl (.single (inStep_routeListTag hnav _) rfl)))
  | cons first rest =>
    exact .cons hitem rfl (.cons (inStep_header hnav n _) rfl
      (.single (inStep_routeListTag hnav _) rfl))

/-- A group gets one more route. -/
theorem leadLines_entry (hnav : nav.IsPlain) {n : Node} (hn : IsListable n)
    (hopens : opensGroup n = false) :
    ∃ e : RouteEntry, e.text = n.flatten.toList ∧ ∀ closed g,
      LeadLines (nav.inGroup closed g) [nav.entry n]
        (nav.inGroup closed ⟨g.header, g.routes ++ [e]⟩) := by
  obtain ⟨e, htext, hentry⟩ := inStep_entry hnav hn hopens
  refine ⟨e, htext, fun closed g => ?_⟩
  have hroutes : nav.inGroup closed ⟨g.header, g.routes ++ [e]⟩ =
      (nav.inGroup closed g).addElement "li".toList []
        [.element "a".toList (nav.routeAttributes e) e.shown] := by
    simp only [inGroup, List.map_append, List.map_cons, List.map_nil, List.reverse_append]
    rfl
  rw [hroutes]
  exact .single (hentry _) rfl

/-- A group is closed. -/
theorem leadLines_close (nav : Navigation) (closed : List Group) (g : Group) :
    LeadLines (nav.inGroup closed g) ["</ul>", "</li>"] (nav.betweenGroups (closed ++ [g])) := by
  have hlist := InStep.closing_children mem_ul nav.routeListAttributes
    [⟨"li".toList, [], (nav.groupTrees closed).reverse⟩, ⟨"ul".toList, [], []⟩]
    (nav.topTrees closed.isEmpty g).reverse (g.routes.map nav.routeTree)
  have hitem := InStep.closing_children mem_li [] [⟨"ul".toList, [], []⟩]
    (nav.groupTrees closed).reverse (nav.topTrees closed.isEmpty g ++
      [.element "ul".toList nav.routeListAttributes (g.routes.map nav.routeTree)])
  -- the list of routes is the last thing in its item, so it is the first of the reversed ones
  rw [List.reverse_append] at hitem
  have hbetween : nav.betweenGroups (closed ++ [g]) = ⟨[⟨"ul".toList, [], []⟩],
      nav.groupTree closed.isEmpty g :: (nav.groupTrees closed).reverse, []⟩ := by
    rw [betweenGroups, groupTrees_concat, List.reverse_append]
    rfl
  rw [hbetween]
  exact .cons hlist rfl (.single hitem rfl)

theorem leadLines_end (nav : Navigation) (groups : List Group) :
    LeadLines (nav.betweenGroups groups) ["</ul>"] ⟨[], [nav.indexTree groups], []⟩ :=
  .single (.closing_children mem_ul [] [] [] (nav.groupTrees groups)) rfl

end

end RouteDocs.Html.Navigation
