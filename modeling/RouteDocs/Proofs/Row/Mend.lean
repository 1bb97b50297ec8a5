import RouteDocs.Proofs.Repair
import RouteDocs.Proofs.Row.Errands

/-!
# What is put in for a list

Making sure of a list looks through the first section with the heading and no
further. Where the section has the subsection heading, the list alone is put in
under it, if it has none. The heading is put in with the list where it is
missing, and also where an output heading comes first and an input list is
looked for: the search stops there and does not see an input heading further on.

None of this turns on the state of the catalog: what is on file is left as it
is, and for the rest the search reads the page.

Results:
* `exists_firstSection`: a row that has a section can be cut at the first one.
* `mend_of_locate`, `nodes_ensureList_of_none`: what is put in, read off the row of nodes.
* `mend_firstSection`: it is put in inside the first section.
* `mend_inside`: the two cases of what is put in.
* `mends_ensureList`: they are the cases of making sure of a list.
* `ensureList_mends`: what making sure of a list does to a section.
* `ensureList_doubles_heading`: a heading that is there can be put in once more.
-/
namespace RouteDocs

namespace Row

open Draft (Passed scaffold)

/-! ## Sections and their titles -/

/-- The texts of the headings of level four among nodes. -/
def titles (ns : List Node) : List String :=
  (ns.filter (Node.isA .head4)).map Node.flatten

/-- A row cut at the first section with a heading: what is before, the heading, what is inside the
section and what follows it. -/
structure FirstSection (routeSection : String) (ns before : List Node) (heading : Node)
    (inside rest : List Node) : Prop where
  split : ns = before ++ heading :: (inside ++ rest)
  first : ∀ n ∈ before, ¬(n.isA .head3 = true ∧ n.flatten = routeSection)
  isHeading : heading.isA .head3 = true
  text : heading.flatten = routeSection
  inside : ∀ n ∈ inside, n.endsSection = false
  ends : ∀ n, rest.head? = some n → n.endsSection = true

/-- The inside of a section cut at the first subsection heading with a text, and again at the list
or the heading that comes next. -/
structure Headed (kind : String) (inside front : List Node) (heading : Node)
    (between after : List Node) : Prop where
  split : inside = front ++ heading :: (between ++ after)
  first : kind ∉ titles front
  isHeading : heading.isA .head4 = true
  text : heading.flatten = kind
  between : ∀ n ∈ between, n.isA .head4 = false ∧ n.isA .definitionList = false
  ends : ∀ n, after.head? = some n → n.isA .head4 = true ∨ n.isA .definitionList = true

/-- The inside of a section cut where a subsection heading with a text belongs: at its end, or for
an input heading in front of the first output heading. -/
structure Headless (kind : String) (inside front after : List Node) : Prop where
  split : inside = front ++ after
  absent : kind ∉ titles front
  noOutput : kind = ListKind.input.label → ListKind.output.label ∉ titles front
  ends : ∀ n, after.head? = some n →
    kind = ListKind.input.label ∧ n.isA .head4 = true ∧ n.flatten = ListKind.output.label

/-- An input heading is looked for, and an output heading comes before all input headings. -/
def Overtaken (kind : String) (ts : List String) : Prop :=
  kind = ListKind.input.label ∧
    ∃ front back, ts = front ++ ListKind.output.label :: back ∧ kind ∉ front

section
variable {S kind t : String} {passed : Passed} {n : Node} {ns : List Node} {ts : List String}

theorem titles_append (ns ms : List Node) : titles (ns ++ ms) = titles ns ++ titles ms := by
  rw [titles, List.filter_append, List.map_append, titles, titles]

theorem titles_cons_head4 (h : n.isA .head4 = true) (ns : List Node) :
    titles (n :: ns) = n.flatten :: titles ns := by
  rw [titles, List.filter_cons_of_pos h, List.map_cons, titles]

theorem titles_cons_other (h : n.isA .head4 = false) (ns : List Node) :
    titles (n :: ns) = titles ns := by
  rw [titles, List.filter_cons_of_neg (by simp [h]), titles]

theorem mem_titles_cons (hn : n.isA .head4 = true → n.flatten ≠ t) :
    t ∈ titles (n :: ns) ↔ t ∈ titles ns := by
  cases h4 : n.isA .head4 with
  | true => rw [titles_cons_head4 h4, List.mem_cons, or_iff_right (hn h4).symm]
  | false => rw [titles_cons_other h4]

/-- A title that is neither looked for nor stops the search makes no difference. -/
theorem overtaken_cons (ht : t ≠ kind)
    (hout : kind = ListKind.input.label → t ≠ ListKind.output.label) :
    Overtaken kind (t :: ts) ↔ Overtaken kind ts := by
  constructor
  · rintro ⟨hkind, front, back, hsplit, hfront⟩
    cases front with
    | nil => exact absurd (List.cons.inj hsplit).1 (hout hkind)
    | cons s front =>
      obtain ⟨rfl, hrest⟩ := List.cons.inj hsplit
      exact ⟨hkind, front, back, hrest, fun h => hfront (List.mem_cons_of_mem t h)⟩
  · rintro ⟨hkind, front, back, rfl, hfront⟩
    refine ⟨hkind, t :: front, back, rfl, ?_⟩
    rw [List.mem_cons, not_or]
    exact ⟨ht.symm, hfront⟩

/-- A node that is no heading of the kind and does not stop the search makes no difference. -/
theorem overtaken_titles_cons (hn : n.isA .head4 = true → n.flatten ≠ kind)
    (hout : kind = ListKind.input.label → n.isA .head4 = true →
      n.flatten ≠ ListKind.output.label) :
    Overtaken kind (titles (n :: ns)) ↔ Overtaken kind (titles ns) := by
  cases h4 : n.isA .head4 with
  | true => rw [titles_cons_head4 h4, overtaken_cons (hn h4) fun hkind => hout hkind h4]
  | false => rw [titles_cons_other h4]

theorem not_overtaken_self (kind : String) (ts : List String) : ¬Overtaken kind (kind :: ts) := by
  rintro ⟨hkind, front, back, hsplit, hfront⟩
  cases front with
  | nil =>
    rw [hkind] at hsplit
    exact absurd (List.cons.inj hsplit).1 (by decide)
  | cons s front =>
    obtain ⟨rfl, -⟩ := List.cons.inj hsplit
    exact hfront List.mem_cons_self

/-- A row that has a section can be cut at the first one. -/
theorem exists_firstSection (h : HasSection S ns) :
    ∃ before heading inside rest, FirstSection S ns before heading inside rest := by
  obtain ⟨before, heading, after, hsplit, hbefore, h3, htext⟩ := Draft.exists_first h
  refine ⟨before, heading, after.takeWhile fun n => !n.endsSection,
    after.dropWhile fun n => !n.endsSection, ?_, hbefore, h3, htext, ?_, ?_⟩
  · rw [List.takeWhile_append_dropWhile, hsplit]
  · intro n hn
    simpa using List.all_eq_true.1 List.all_takeWhile n hn
  · intro n hn
    have hstop := List.head?_dropWhile_not (fun n : Node => !n.endsSection) after
    rw [hn] at hstop
    simpa using hstop

/-! ## The search as an edit of the row -/

/-- The row with a list of a kind made sure of where the search comes to it: as it is where the
search finds the list, and else with the list put in, and the heading where that is missing. -/
def mend (routeSection kind : String) : Passed → List Node → List Node
  | passed, [] => missing kind passed
  | passed, n :: rest =>
    if stops kind passed n then missing kind passed ++ n :: rest
    else if passed = .listHeading ∧ n.isA .definitionList = true then n :: rest
    else n :: mend routeSection kind (pass routeSection kind passed n) rest

theorem mend_cons_stop (h : stops kind passed n = true) (ns : List Node) :
    mend S kind passed (n :: ns) = missing kind passed ++ n :: ns := by
  rw [mend, if_pos h]

theorem mend_cons_found (h : n.isA .definitionList = true) (ns : List Node) :
    mend S kind .listHeading (n :: ns) = n :: ns := by
  rw [mend, stops_list h, if_neg Bool.false_ne_true, if_pos ⟨rfl, h⟩]

theorem mend_cons_pass (h : stops kind passed n = false)
    (hlist : ¬(passed = .listHeading ∧ n.isA .definitionList = true)) (ns : List Node) :
    mend S kind passed (n :: ns) = n :: mend S kind (pass S kind passed n) ns := by
  rw [mend, h, if_neg Bool.false_ne_true, if_neg hlist]

/-- What the search finds or does not find among blocks says what is put in. -/
theorem mend_of_locate (S kind : String) (passed : Passed) (position : Nat) (bs : List Block) :
    match Draft.locate S kind passed position bs with
    | .present _ => mend S kind passed (bs.map (·.node)) = bs.map (·.node)
    | .missing found withHeading => ∃ i, found = position + i ∧
        mend S kind passed (bs.map (·.node)) =
          (bs.map (·.node)).take i ++ scaffold kind withHeading ++ (bs.map (·.node)).drop i := by
  induction bs generalizing passed position with
  | nil =>
    rw [Draft.locate]
    exact ⟨0, rfl, by simp [mend, missing]⟩
  | cons b rest ih =>
    rw [locate_cons, List.map_cons]
    cases hs : stops kind passed b.node with
    | true =>
      rw [if_pos rfl]
      exact ⟨0, rfl, mend_cons_stop hs _⟩
    | false =>
      rw [if_neg Bool.false_ne_true]
      by_cases hlist : passed = .listHeading ∧ b.node.isA .definitionList = true
      · rw [if_pos hlist]
        obtain ⟨rfl, hlist⟩ := hlist
        exact mend_cons_found hlist _
      · rw [if_neg hlist, mend_cons_pass hs hlist]
        have hrest := ih (pass S kind passed b.node) (position + 1)
        split at hrest
        · rw [hrest]
        · obtain ⟨i, hi, hmend⟩ := hrest
          exact ⟨i + 1, by omega, by rw [hmend]; rfl⟩

end

/-! ## Where it is put in -/

section
variable {S kind : String} {passed : Passed} {n heading : Node}
  {ns before inside rest : List Node}

theorem stops_of_endsSection (h : passed ≠ .nothing) (hn : n.endsSection = true) :
    stops kind passed n = true := by
  cases passed with
  | nothing => exact absurd rfl h
  | sectionHeading => rw [stops, hn, Bool.true_or]
  | listHeading => rw [stops, hn, Bool.true_or]

theorem mend_append (h : passed ≠ .nothing) (hrest : ∀ n, rest.head? = some n → n.endsSection = true)
    (inside : List Node) :
    mend S kind passed (inside ++ rest) = mend S kind passed inside ++ rest := by
  induction inside generalizing passed with
  | nil =>
    rw [List.nil_append, mend]
    cases rest with
    | nil => rw [mend, List.append_nil]
    | cons n rest => exact mend_cons_stop (stops_of_endsSection h (hrest n rfl)) rest
  | cons n inside ih =>
    cases hs : stops kind passed n with
    | true => rw [List.cons_append, mend_cons_stop hs, mend_cons_stop hs, List.append_assoc,
        List.cons_append]
    | false =>
      by_cases hlist : passed = .listHeading ∧ n.isA .definitionList = true
      · obtain ⟨rfl, hlist⟩ := hlist
        rw [List.cons_append, mend_cons_found hlist, mend_cons_found hlist, List.cons_append]
      · rw [List.cons_append, mend_cons_pass hs hlist, mend_cons_pass hs hlist, List.cons_append,
          ih (Draft.pass_ne_nothing h)]

/-- Nothing is put in before the section. -/
theorem mend_before (h : ∀ n ∈ before, ¬(n.isA .head3 = true ∧ n.flatten = S)) (ms : List Node) :
    mend S kind .nothing (before ++ ms) = before ++ mend S kind .nothing ms := by
  induction before with
  | nil => rfl
  | cons n before ih =>
    obtain ⟨hn, hbefore⟩ := List.forall_mem_cons.1 h
    have hpass : pass S kind .nothing n = .nothing := by
      rw [pass, if_neg (by simpa using hn)]
    rw [List.cons_append, mend_cons_pass rfl (by simp), hpass, ih hbefore, List.cons_append]

/-- What is put in is put in inside the first section. -/
theorem mend_firstSection (h : FirstSection S ns before heading inside rest) :
    mend S kind .nothing ns = before ++ heading :: (mend S kind .sectionHeading inside ++ rest) := by
  have hpass : pass S kind .nothing heading = .sectionHeading := by
    rw [pass, h.isHeading, h.text, beq_self_eq_true, Bool.true_and, if_pos rfl]
  rw [h.split, mend_before h.first, mend_cons_pass rfl (by simp), hpass,
    mend_append (by decide) h.ends]

end

/-! ## What is put in -/

section
variable {S kind : String} {n heading : Node} {inside front between after : List Node}

theorem Headed.cons (h : Headed kind inside front heading between after)
    (hn : n.isA .head4 = true → n.flatten ≠ kind) :
    Headed kind (n :: inside) (n :: front) heading between after :=
  ⟨congrArg (n :: ·) h.split, mt (mem_titles_cons hn).1 h.first, h.isHeading, h.text, h.between,
    h.ends⟩

theorem Headless.cons (h : Headless kind inside front after)
    (hn : n.isA .head4 = true → n.flatten ≠ kind)
    (hout : kind = ListKind.input.label → n.isA .head4 = true →
      n.flatten ≠ ListKind.output.label) :
    Headless kind (n :: inside) (n :: front) after :=
  ⟨congrArg (n :: ·) h.split, mt (mem_titles_cons hn).1 h.absent,
    fun hkind => mt (mem_titles_cons (hout hkind)).1 (h.noOutput hkind), h.ends⟩

/-- The inside of a section after its subsection heading with the list put in, unless that comes
next. -/
def withList (between after : List Node) : List Node :=
  if after.head?.any (Node.isA .definitionList) then between ++ after
  else between ++ Node.newDefinitionList :: after

/-- Under its heading, the search comes to the list or puts it in where it belongs. -/
theorem mend_listHeading (h : ∀ n ∈ inside, n.endsSection = false) :
    ∃ between after, inside = between ++ after ∧
      (∀ n ∈ between, n.isA .head4 = false ∧ n.isA .definitionList = false) ∧
      (∀ n, after.head? = some n → n.isA .head4 = true ∨ n.isA .definitionList = true) ∧
      mend S kind .listHeading inside = withList between after := by
  induction inside with
  | nil =>
    refine ⟨[], [], rfl, List.forall_mem_nil _, ?_, rfl⟩
    rintro n ⟨⟩
  | cons n inside ih =>
    obtain ⟨hn, hinside⟩ := List.forall_mem_cons.1 h
    cases h4 : n.isA .head4 with
    | true =>
      have hs : stops kind .listHeading n = true := by rw [stops, h4, Bool.or_true]
      have hlist : n.isA .definitionList = false := Node.isA_eq_false h4 (by decide)
      refine ⟨[], n :: inside, rfl, List.forall_mem_nil _, ?_, ?_⟩
      · rintro m ⟨⟩
        exact .inl h4
      · rw [mend_cons_stop hs, withList, List.head?_cons, Option.any_some, hlist,
          if_neg Bool.false_ne_true]
        rfl
    | false =>
      cases hlist : n.isA .definitionList with
      | true =>
        refine ⟨[], n :: inside, rfl, List.forall_mem_nil _, ?_, ?_⟩
        · rintro m ⟨⟩
          exact .inr hlist
        · rw [mend_cons_found hlist, withList, List.head?_cons, Option.any_some, hlist, if_pos rfl]
          rfl
      | false =>
        have hs : stops kind .listHeading n = false := by rw [stops, hn, h4, Bool.or_false]
        obtain ⟨between, after, rfl, hbetween, hafter, hmend⟩ := ih hinside
        refine ⟨n :: between, after, rfl, List.forall_mem_cons.2 ⟨⟨h4, hlist⟩, hbetween⟩, hafter, ?_⟩
        rw [mend_cons_pass hs (by simp [hlist]), pass, hmend, withList, withList]
        split <;> rfl

/-- Inside a section, either a heading is met before the search stops, and it is given the list
that it may lack, or it is put in with the list where the search stops. -/
theorem mend_inside (S kind : String) (h : ∀ n ∈ inside, n.endsSection = false) :
    (kind ∈ titles inside ∧ ¬Overtaken kind (titles inside) ∧
      ∃ front heading between after, Headed kind inside front heading between after ∧
        mend S kind .sectionHeading inside = front ++ heading :: withList between after) ∨
    ((kind ∉ titles inside ∨ Overtaken kind (titles inside)) ∧
      ∃ front after, Headless kind inside front after ∧
        mend S kind .sectionHeading inside =
          front ++ Node.newHeading 4 kind :: Node.newDefinitionList :: after) := by
  induction inside with
  | nil =>
    have hnone : kind ∉ titles [] := List.not_mem_nil
    exact .inr ⟨.inl hnone, [], [], ⟨rfl, hnone, fun _ => List.not_mem_nil, nofun⟩, rfl⟩
  | cons n inside ih =>
    obtain ⟨hn, hinside⟩ := List.forall_mem_cons.1 h
    by_cases hs : n.isA .head4 = true ∧ kind = ListKind.input.label ∧
        n.flatten = ListKind.output.label
    · -- the output heading stops the search for the input heading
      obtain ⟨h4, hkind, htext⟩ := hs
      have hstop : stops kind .sectionHeading n = true := by
        rw [stops, h4, hkind, htext]
        simp
      refine .inr ⟨.inr ⟨hkind, [], titles inside, ?_, List.not_mem_nil⟩, [], n :: inside,
        ⟨rfl, List.not_mem_nil, fun _ => List.not_mem_nil, ?_⟩, mend_cons_stop hstop _⟩
      · rw [titles_cons_head4 h4, htext, List.nil_append]
      · rintro m ⟨⟩
        exact ⟨hkind, h4, htext⟩
    · have hpast : stops kind .sectionHeading n = false := by
        rw [stops, hn, Bool.false_or]
        simpa using hs
      have hmend : mend S kind .sectionHeading (n :: inside) =
          n :: mend S kind (pass S kind .sectionHeading n) inside :=
        mend_cons_pass hpast (by simp) _
      by_cases hhere : n.isA .head4 = true ∧ n.flatten = kind
      · have hpass : pass S kind .sectionHeading n = .listHeading := by
          rw [pass, if_pos (by simpa using hhere)]
        obtain ⟨h4, rfl⟩ := hhere
        obtain ⟨between, after, rfl, hbetween, hafter, hlist⟩ := mend_listHeading hinside
        rw [titles_cons_head4 h4, hmend, hpass, hlist]
        exact .inl ⟨List.mem_cons_self, not_overtaken_self _ _, [], n, between, after,
          ⟨rfl, List.not_mem_nil, h4, rfl, hbetween, hafter⟩, rfl⟩
      · have hpass : pass S kind .sectionHeading n = .sectionHeading := by
          rw [pass, if_neg (by simpa using hhere)]
        have hkind : n.isA .head4 = true → n.flatten ≠ kind := fun h4 h => hhere ⟨h4, h⟩
        have hout : kind = ListKind.input.label → n.isA .head4 = true →
            n.flatten ≠ ListKind.output.label := fun hin h4 h => hs ⟨h4, hin, h⟩
        rw [mem_titles_cons hkind, overtaken_titles_cons hkind hout, hmend, hpass]
        rcases ih hinside with ⟨hin, hnot, front, heading, between, after, hcut, heq⟩ |
          ⟨hwhy, front, after, hcut, heq⟩
        · exact .inl ⟨hin, hnot, n :: front, heading, between, after, hcut.cons hkind,
            congrArg (n :: ·) heq⟩
        · exact .inr ⟨hwhy, n :: front, after, hcut.cons hkind hout, congrArg (n :: ·) heq⟩

/-- What making sure of a list of a kind makes of the inside of a section. -/
structure Mends (onFile : Prop) (kind : String) (inside fixed : List Node) : Prop where
  /-- The list is on file, here or in another section with the same heading. -/
  filed : onFile → fixed = inside
  /-- The first heading of the kind is given the list, unless that is there. -/
  headed : ¬onFile → kind ∈ titles inside → ¬Overtaken kind (titles inside) →
    ∃ front heading between after, Headed kind inside front heading between after ∧
      fixed = front ++ heading :: withList between after
  /-- The heading is put in with the list. -/
  headless : ¬onFile → kind ∉ titles inside ∨ Overtaken kind (titles inside) →
    ∃ front after, Headless kind inside front after ∧
      fixed = front ++ Node.newHeading 4 kind :: Node.newDefinitionList :: after

theorem Mends.cases {onFile : Prop} {fixed : List Node} (h : Mends onFile kind inside fixed) :
    fixed = inside ∨
    (∃ front heading between after, Headed kind inside front heading between after ∧
      fixed = front ++ heading :: withList between after) ∨
    ∃ front after, Headless kind inside front after ∧
      fixed = front ++ Node.newHeading 4 kind :: Node.newDefinitionList :: after := by
  by_cases hfile : onFile
  · exact .inl (h.filed hfile)
  · by_cases hheaded : kind ∈ titles inside ∧ ¬Overtaken kind (titles inside)
    · exact .inr (.inl (h.headed hfile hheaded.1 hheaded.2))
    · rw [not_and_or, not_not] at hheaded
      exact .inr (.inr (h.headless hfile hheaded))

end

end Row

/-! ## Drafts -/

namespace Draft

section
variable {d : Draft} {S kind : String}

/-- What is not on file is made sure of as the search says. -/
theorem nodes_ensureList_of_none (h : d.lookup ⟨some S, some kind⟩ = none) :
    (d.ensureList S kind).1.page.nodes = Row.mend S kind .nothing d.page.nodes := by
  have hmend := Row.mend_of_locate S kind .nothing 0 d.page.blocks
  cases hspot : locate S kind .nothing 0 d.page.blocks with
  | present l =>
    rw [hspot] at hmend
    have hkept : d.withCatalog.lookup ⟨some S, some kind⟩ = none := h
    have hthere : locate S kind .nothing 0 d.withCatalog.page.blocks = .present l := hspot
    simp only [ensureList, hkept, hthere]
    exact hmend.symm
  | missing position withHeading =>
    rw [hspot] at hmend
    obtain ⟨i, hi, hmend⟩ := hmend
    rw [Nat.zero_add] at hi
    rw [ensureList_of_missing h hspot, hi]
    exact (Page.nodes_insertAt d.page _ _).trans hmend.symm

/-- Making sure of a list of a section that is found on the page changes what is inside it. -/
theorem mends_ensureList {before inside rest : List Node} {heading : Node}
    (hcut : Row.FirstSection S d.page.nodes before heading inside rest) (kind : String) :
    ∃ fixed, (d.ensureList S kind).1.page.nodes = before ++ heading :: (fixed ++ rest) ∧
      Row.Mends (d.lookup ⟨some S, some kind⟩ ≠ none) kind inside fixed := by
  cases h : d.lookup ⟨some S, some kind⟩ with
  | some l =>
    refine ⟨inside, ?_, ?_⟩
    · rw [ensureList_of_some h]
      exact hcut.split
    · exact ⟨fun _ => rfl, fun hnone => absurd nofun hnone, fun hnone => absurd nofun hnone⟩
  | none =>
    refine ⟨Row.mend S kind .sectionHeading inside, ?_, ?_⟩
    · rw [nodes_ensureList_of_none h, Row.mend_firstSection hcut]
    · rcases Row.mend_inside S kind hcut.inside with
        ⟨hin, hnot, hheaded⟩ | ⟨hwhy, hheadless⟩
      · exact ⟨fun hfiled => absurd rfl hfiled, fun _ _ _ => hheaded,
          fun _ hwhy => absurd hwhy (not_or.2 ⟨not_not.2 hin, hnot⟩)⟩
      · exact ⟨fun hfiled => absurd rfl hfiled,
          fun _ hin hnot => absurd hwhy (not_or.2 ⟨not_not.2 hin, hnot⟩), fun _ _ => hheadless⟩

/-- Making sure of a list of a section changes the page, if at all, inside the first section with
the heading. Unless a list is on file, the first subsection heading of the kind keeps its list or
is given one; only where there is no such heading, or an input list is looked for and an output
heading comes first, the heading is put in with the list. -/
theorem ensureList_mends (d : Draft) (hsection : Row.HasSection S d.page.nodes) (kind : String) :
    ∃ before heading inside rest fixed,
      Row.FirstSection S d.page.nodes before heading inside rest ∧
      (d.ensureList S kind).1.page.nodes = before ++ heading :: (fixed ++ rest) ∧
      Row.Mends (d.lookup ⟨some S, some kind⟩ ≠ none) kind inside fixed := by
  obtain ⟨before, heading, inside, rest, hcut⟩ := Row.exists_firstSection hsection
  obtain ⟨fixed, hnodes, hmends⟩ := mends_ensureList hcut kind
  exact ⟨before, heading, inside, rest, fixed, hcut, hnodes, hmends⟩

end

/-- A section whose input heading lacks a list is looked through behind a section without one. -/
theorem ensureList_mends_of_bare_heading :
    let d := ofPage (.ofElement "Document" [] [
      .element "head3" [] [.text "GET /b"], .element "head3" [] [.text "GET /a"],
      .element "head4" [] [.text "Notes"], .element "head4" [] [.text "Input"],
      .element "Para" [] [.text "none yet"], .element "head4" [] [.text "Output"],
      .element "over-text" [] []])
    Row.HasSection "GET /a" d.page.nodes ∧
      ∃ before heading inside rest fixed,
        Row.FirstSection "GET /a" d.page.nodes before heading inside rest ∧
        (d.ensureList "GET /a" "Input").1.page.nodes = before ++ heading :: (fixed ++ rest) ∧
        Row.Mends (d.lookup ⟨some "GET /a", some "Input"⟩ ≠ none) "Input" inside fixed := by
  intro d
  have hsection : Row.HasSection "GET /a" d.page.nodes := by decide
  exact ⟨hsection, ensureList_mends d hsection "Input"⟩

/-- An input heading behind an output heading is not seen: the section gets a second one. -/
theorem ensureList_doubles_heading :
    let p := Page.ofElement "Document" [] [
      .element "head3" [] [.text "GET /a"], .element "head4" [] [.text "Output"],
      .element "head4" [] [.text "Input"]]
    Row.titles p.nodes = ["Output", "Input"] ∧
      Row.titles ((ofPage p).ensureList "GET /a" "Input").1.page.nodes =
        ["Input", "Output", "Input"] := by
  decide

end Draft
end RouteDocs
