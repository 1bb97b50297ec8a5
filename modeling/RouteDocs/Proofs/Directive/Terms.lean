import Mathlib.Logic.Relation
import RouteDocs.Proofs.Directive.Grown

/-!
# The terms that a run hands on

A directive copies terms from the list of one section to the list of another,
and what it has copied a later directive may copy on. Sections may borrow from
each other in a circle, or from themselves. Still a run loses no term, it hands
over all that was asked for, and every term of a list comes from a section that
can be reached along the directives from the section of the list.

Results:
* `listAt?_execute`: an errand changes one list and leaves all others.
* `hasTerm_execute_iff`: the terms that there are after an errand.
* `hasTerm_executeAll`, `hasTerm_of_mem`, `hasTerm_from`: the terms after a row of errands.
* `list_run`, `listAt?_run`: a run ends with the lists that its errands make.
* `terms_of_run`: a strict run loses no term and invents none.
-/
namespace RouteDocs

/-- A definition list has a term with a text. -/
def Node.HasTerm (n : Node) (t : String) : Prop :=
  ∃ p ∈ DefinitionList.termPairs n.children, p.text = t

theorem Node.not_hasTerm_newDefinitionList (t : String) : ¬ newDefinitionList.HasTerm t := by
  rintro ⟨p, hp, -⟩
  cases hp

theorem Node.hasTerm_mergeList_iff (source : Node) {dest : Node}
    (h : dest.isA .definitionList = true) (t : String) :
    (source.mergeList dest).HasTerm t ↔ source.HasTerm t ∨ dest.HasTerm t := by
  rw [HasTerm, mergeList, DefinitionList.children_withChildren h]
  exact DefinitionList.exists_text_merge_iff source.children dest.children t

namespace Draft

/-- The list on file under a place, as it stands on the page. -/
def listAt? (d : Draft) (p : Place) : Option Node :=
  (d.lookup p).bind d.page.node?

/-- The list on file under a place has a term with a text. -/
def HasTerm (d : Draft) (p : Place) (t : String) : Prop :=
  ∃ n, d.listAt? p = some n ∧ n.HasTerm t

section
variable {d : Draft}

theorem Coherent.node?_lookup (h : d.Coherent) (hlabels : d.page.WellLabelled) {p : Place} {l : Nat}
    (hl : d.lookup p = some l) :
    ∃ n, ⟨l, n⟩ ∈ d.page.blocks ∧ d.page.node? l = some n ∧ n.isA .definitionList = true := by
  obtain ⟨⟨k, n⟩, hb, rfl, hlist⟩ := h.mem_blocks hl
  exact ⟨n, hb, (Page.node?_eq_some_iff hlabels).2 (List.mem_append_left _ hb), hlist⟩

theorem Coherent.isList_listAt? (h : d.Coherent) (hlabels : d.page.WellLabelled) {p : Place}
    {n : Node} (hn : d.listAt? p = some n) : n.isA .definitionList = true := by
  obtain ⟨l, hl, hnode⟩ := Option.bind_eq_some_iff.1 hn
  obtain ⟨m, -, hm, hlist⟩ := h.node?_lookup hlabels hl
  rw [hnode] at hm
  cases hm
  exact hlist

/-- To make sure of a list leaves what is on file on file. -/
theorem lookup_ensureList_of_some {p : Place} {l : Nat} (h : d.Coherent) {routeSection : String}
    (hsection : ∃ b ∈ d.page.blocks, b.node.isA .head3 = true ∧ b.node.flatten = routeSection)
    (kind : String) (hl : d.lookup p = some l) :
    (d.ensureList routeSection kind).1.lookup p = some l := by
  cases hplace : d.lookup ⟨some routeSection, some kind⟩ with
  | some k =>
    rw [ensureList_of_some hplace]
    exact hl
  | none =>
    obtain ⟨before, after, withHeading, -, -, heq⟩ := ensureList_of_none h hsection hplace
    rw [heq, lookup_putIn, hl, Option.some_or]

theorem listAt?_ensureList (h : d.Coherent) (hlabels : d.page.WellLabelled) {routeSection : String}
    (hsection : ∃ b ∈ d.page.blocks, b.node.isA .head3 = true ∧ b.node.flatten = routeSection)
    (kind : String) (p : Place) :
    (d.ensureList routeSection kind).1.listAt? p =
      if p = ⟨some routeSection, some kind⟩ then some ((d.listAt? p).getD Node.newDefinitionList)
      else d.listAt? p := by
  cases hplace : d.lookup ⟨some routeSection, some kind⟩ with
  | some k =>
    rw [ensureList_of_some hplace]
    have hsame : d.withCatalog.listAt? p = d.listAt? p := rfl
    rw [hsame]
    split
    · rename_i hp
      obtain ⟨n, -, hn, -⟩ := h.node?_lookup hlabels hplace
      rw [listAt?, hp, hplace, Option.bind_some, hn, Option.getD_some]
    · rfl
  | none =>
    obtain ⟨before, after, withHeading, -, -, heq⟩ := ensureList_of_none h hsection hplace
    rw [heq, listAt?, lookup_putIn]
    have hpage : (d.putIn routeSection kind before.length withHeading).page =
        d.page.insertAt before.length (scaffold kind withHeading) := rfl
    rw [hpage]
    cases hl : d.lookup p with
    | some l =>
      obtain ⟨n, -, hn, -⟩ := h.node?_lookup hlabels hl
      have hne : p ≠ ⟨some routeSection, some kind⟩ := by
        rintro rfl
        rw [hplace] at hl
        cases hl
      rw [if_neg hne, listAt?, hl, Option.some_or, Option.bind_some, Option.bind_some, hn,
        Page.node?_insertAt hlabels hn]
    | none =>
      rw [listAt?, hl, Option.none_or, Option.bind_none, Option.getD_none]
      by_cases hp : p = ⟨some routeSection, some kind⟩
      · rw [if_pos hp.symm, if_pos hp, Option.bind_some]
        refine (Page.node?_eq_some_iff (Page.wellLabelled_insertAt hlabels _ _)).2 ?_
        refine List.mem_append_left _ (Page.mem_blocks_insertAt.2 (.inr ?_))
        cases withHeading with
        | true => exact List.mem_cons_of_mem _ List.mem_cons_self
        | false => exact List.mem_cons_self
      · rw [if_neg (Ne.symm hp), if_neg hp, Option.bind_none]

end

end Draft

namespace Directive

/-! ## One errand -/

def Errand.into (e : Errand) : Place :=
  ⟨e.routeSection, some e.request.kind.label⟩

/-- The place of the list that an errand copies. -/
def Errand.source (e : Errand) : Place :=
  ⟨some e.request.reference, some e.request.kind.label⟩

section
variable {start : List Block} {d d' : Draft} {e : Errand}

/-- A list on file that takes in another stays on file. -/
theorem Grown.lookup_mergeList (h : Grown start d) {q : Place} {dest : Nat}
    (hdest : d.lookup q = some dest) (n : Node) (p : Place) :
    ({ d with page := d.page.modify dest n.mergeList } : Draft).lookup p = d.lookup p :=
  h.coherent.lookup_withPage (Catalog.placed_modifyBlocks (fun _ hb hbl =>
    (alike_mergeList n (h.coherent.isList h.labelled hdest hb hbl)).role) _) p

/-- A list on file that takes in another is the only one to change. -/
theorem Grown.listAt?_mergeList (h : Grown start d) {q : Place} {dest : Nat}
    (hdest : d.lookup q = some dest) (n : Node) (p : Place) :
    ({ d with page := d.page.modify dest n.mergeList } : Draft).listAt? p =
      if p = q then (d.listAt? p).map n.mergeList else d.listAt? p := by
  rw [Draft.listAt?, h.lookup_mergeList hdest, Draft.listAt?]
  cases hl : d.lookup p with
  | none => simp
  | some l =>
    rw [Option.bind_some, Option.bind_some, Page.node?_modify]
    by_cases hp : p = q
    · rw [hp, hdest] at hl
      cases hl
      rw [if_pos rfl, if_pos hp]
    · have hne : l ≠ dest := by
        rintro rfl
        exact hp (h.coherent.place_eq h.labelled hl hdest)
      rw [if_neg hne, if_neg hp]

/-- An errand leaves what is on file on file. -/
theorem lookup_execute (h : Grown start d) (hs : e.StandsIn start) (he : execute d e = some d')
    {p : Place} {l : Nat} (hl : d.lookup p = some l) : d'.lookup p = some l := by
  obtain ⟨into, source, n, hinto, -, -, -, rfl⟩ := execute_found h he
  have hscope := hs into hinto
  have hsection := h.hasSection hscope
  rw [(h.ensureList hscope _).lookup_mergeList (Draft.lookup_ensureList h.coherent hsection _)]
  exact Draft.lookup_ensureList_of_some h.coherent hsection _ hl

/-- An errand that is executed has the list of its section take in the list it asks for, and leaves
all other lists. -/
theorem listAt?_execute (h : Grown start d) (hs : e.StandsIn start)
    (he : execute d e = some d') :
    ∃ n, d.listAt? e.source = some n ∧ ∀ p, d'.listAt? p =
      if p = e.into then some (n.mergeList ((d.listAt? p).getD Node.newDefinitionList))
      else d.listAt? p := by
  obtain ⟨into, source, n, hinto, hsource, hb, -, rfl⟩ := execute_found h he
  have hscope := hs into hinto
  have hsection := h.hasSection hscope
  have hplace : e.into = ⟨some into, some e.request.kind.label⟩ := by rw [Errand.into, hinto]
  refine ⟨n, ?_, fun p => ?_⟩
  · rw [Draft.listAt?, Errand.source, hsource]
    exact (Page.node?_eq_some_iff h.labelled).2 (List.mem_append_left _ hb)
  · rw [(h.ensureList hscope _).listAt?_mergeList (Draft.lookup_ensureList h.coherent hsection _),
      Draft.listAt?_ensureList h.coherent h.labelled hsection, hplace]
    split
    · rw [Option.map_some]
    · rfl

/-- The terms after an errand: those from before, and the list of its section has those of the list
it asks for. -/
theorem hasTerm_execute_iff (h : Grown start d) (hs : e.StandsIn start)
    (he : execute d e = some d') (p : Place) (t : String) :
    d'.HasTerm p t ↔ d.HasTerm p t ∨ (p = e.into ∧ d.HasTerm e.source t) := by
  obtain ⟨n, hn, hlists⟩ := listAt?_execute h hs he
  have hsource : d.HasTerm e.source t ↔ n.HasTerm t := by simp [Draft.HasTerm, hn]
  rw [hsource, Draft.HasTerm, hlists p]
  by_cases hp : p = e.into
  · have hinto : (p = e.into ∧ n.HasTerm t) ↔ n.HasTerm t := and_iff_right hp
    rw [if_pos hp, hinto, Draft.HasTerm]
    simp only [Option.some.injEq, exists_eq_left']
    cases hd : d.listAt? p with
    | none =>
      rw [Option.getD_none, Node.hasTerm_mergeList_iff n (by decide)]
      simp [Node.not_hasTerm_newDefinitionList]
    | some m =>
      have hlist := h.coherent.isList_listAt? h.labelled hd
      rw [Option.getD_some, Node.hasTerm_mergeList_iff n hlist, or_comm]
      simp
  · rw [if_neg hp, ← Draft.HasTerm]
    exact (or_iff_left fun hinto => hp hinto.1).symm

end

/-! ## A row of errands -/

/-- A directive for lists of a kind stands in one section and refers to another. -/
def Borrows (es : List Errand) (kind routeSection reference : Option String) : Prop :=
  ∃ e ∈ es, e.into = ⟨routeSection, kind⟩ ∧ e.source = ⟨reference, kind⟩

section
variable {start : List Block} {d : Draft} {es : List Errand}

theorem execute_of_all {e : Errand} {rest : List Errand}
    (hall : (executeAll d (e :: rest)).2 = (e :: rest).length) :
    ∃ d', execute d e = some d' ∧ (executeAll d (e :: rest)).1 = (executeAll d' rest).1 ∧
      (executeAll d' rest).2 = rest.length := by
  rw [executeAll, List.length_cons] at hall
  cases he : execute d e with
  | none =>
    rw [he] at hall
    have hle := executeAll_le d rest
    dsimp only at hall
    omega
  | some d' =>
    rw [he] at hall
    rw [executeAll, he]
    exact ⟨d', rfl, rfl, Nat.succ.inj hall⟩

theorem lookup_executeAll (h : Grown start d) (hs : ∀ e ∈ es, e.StandsIn start) {p : Place}
    {l : Nat} (hl : d.lookup p = some l) : (executeAll d es).1.lookup p = some l :=
  keeps_executeAll (Q := fun d => d.lookup p = some l) h hs
    (fun _ _ _ hgrown hstands he hd => lookup_execute hgrown hstands he hd) hl

/-- Errands lose no term. -/
theorem hasTerm_executeAll (h : Grown start d) (hs : ∀ e ∈ es, e.StandsIn start) {p : Place}
    {t : String} (ht : d.HasTerm p t) : (executeAll d es).1.HasTerm p t :=
  keeps_executeAll (Q := fun d => d.HasTerm p t) h hs (fun _ _ _ hgrown hstands he hd =>
    (hasTerm_execute_iff hgrown hstands he p t).2 (.inl hd)) ht

/-- A list on file stays on file, and keeps its terms. -/
theorem list_executeAll (h : Grown start d) (hs : ∀ e ∈ es, e.StandsIn start) {p : Place}
    {l : Nat} {n : Node} (hl : d.lookup p = some l) (hn : d.page.node? l = some n) :
    (executeAll d es).1.lookup p = some l ∧
      ∃ n', (executeAll d es).1.page.node? l = some n' ∧ ∀ t, n.HasTerm t → n'.HasTerm t := by
  have hgrown := grown_executeAll h hs
  have hkept := lookup_executeAll h hs hl
  obtain ⟨n', -, hn', -⟩ := hgrown.coherent.node?_lookup hgrown.labelled hkept
  refine ⟨hkept, n', hn', fun t ht => ?_⟩
  have hlist : d.listAt? p = some n := by rw [Draft.listAt?, hl, Option.bind_some, hn]
  obtain ⟨m, hm, hterm⟩ := hasTerm_executeAll h hs ⟨n, hlist, ht⟩
  rw [Draft.listAt?, hkept, Option.bind_some, hn'] at hm
  cases hm
  exact hterm

/-- Errands that are all executed hand over all that is asked for. -/
theorem hasTerm_of_mem (h : Grown start d) (hs : ∀ e ∈ es, e.StandsIn start)
    (hall : (executeAll d es).2 = es.length) {e : Errand} (he : e ∈ es) :
    (∃ into, e.routeSection = some into) ∧ ∃ n, (executeAll d es).1.listAt? e.into = some n ∧
      ∀ t, d.HasTerm e.source t → n.HasTerm t := by
  induction es generalizing d with
  | nil => cases he
  | cons first rest ih =>
    have hhere := hs first List.mem_cons_self
    have hrest := fun e' he' => hs e' (List.mem_cons_of_mem first he')
    obtain ⟨d', hfirst, heq, hall'⟩ := execute_of_all hall
    have h' := grown_execute h hhere hfirst
    rw [heq]
    rcases List.mem_cons.1 he with rfl | he
    · obtain ⟨n, -, hlists⟩ := listAt?_execute h hhere hfirst
      have hinto := hlists e.into
      rw [if_pos rfl] at hinto
      obtain ⟨l, hl, hn⟩ := Option.bind_eq_some_iff.1 hinto
      obtain ⟨hl', n', hn', hterms⟩ := list_executeAll h' hrest hl hn
      obtain ⟨into, -, hsection, -⟩ := execute_eq_some_iff.1 hfirst
      refine ⟨⟨into, hsection⟩, n', by rw [Draft.listAt?, hl', Option.bind_some, hn'],
        fun t ht => hterms t ?_⟩
      obtain ⟨m, hm, hterm⟩ := (hasTerm_execute_iff h hhere hfirst e.into t).2 (.inr ⟨rfl, ht⟩)
      rw [hinto] at hm
      cases hm
      exact hterm
    · obtain ⟨hsection, n, hn, hterms⟩ := ih h' hrest hall' he
      exact ⟨hsection, n, hn, fun t ht =>
        hterms t ((hasTerm_execute_iff h hhere hfirst e.source t).2 (.inl ht))⟩

/-- Errands invent no term: it was there before in a section that can be reached along them. -/
theorem hasTerm_from (h : Grown start d) (hs : ∀ e ∈ es, e.StandsIn start)
    {routeSection kind : Option String} {t : String}
    (ht : (executeAll d es).1.HasTerm ⟨routeSection, kind⟩ t) :
    ∃ origin, Relation.ReflTransGen (Borrows es kind) routeSection origin ∧
      d.HasTerm ⟨origin, kind⟩ t := by
  induction es generalizing d with
  | nil => exact ⟨routeSection, .refl, ht⟩
  | cons e rest ih =>
    have hhere := hs e List.mem_cons_self
    have hrest := fun e' he' => hs e' (List.mem_cons_of_mem e he')
    have hmore : Borrows rest kind ≤ Borrows (e :: rest) kind := fun _ _ ⟨e', he', hplaces⟩ =>
      ⟨e', List.mem_cons_of_mem e he', hplaces⟩
    rw [executeAll] at ht
    cases he : execute d e with
    | none =>
      rw [he] at ht
      obtain ⟨origin, hpath, horigin⟩ := ih h hrest ht
      exact ⟨origin, Relation.ReflTransGen.mono hmore _ _ hpath, horigin⟩
    | some d' =>
      rw [he] at ht
      obtain ⟨via, hpath, hvia⟩ := ih (grown_execute h hhere he) hrest ht
      have hpath' := Relation.ReflTransGen.mono hmore _ _ hpath
      rcases (hasTerm_execute_iff h hhere he _ t).1 hvia with hvia | ⟨hinto, hsource⟩
      · exact ⟨via, hpath', hvia⟩
      · -- the term came with this errand, from the section it refers to
        have hkind : kind = some e.request.kind.label := congrArg Place.subsection hinto
        have hplace : e.source = ⟨some e.request.reference, kind⟩ := by rw [Errand.source, hkind]
        refine ⟨some e.request.reference, hpath'.tail ?_, hplace ▸ hsource⟩
        exact ⟨e, List.mem_cons_self, hinto.symm, hplace⟩

end

/-! ## A run -/

theorem coherent_run {rules : DirectiveRules} {name : String} {as : Attributes} {cs : List Node}
    (hcs : ∀ n ∈ cs, isMarked n = false) {log : List Notice} {m : Nat} {w : Work}
    (h : run rules ⟨Draft.ofPage (Page.ofElement name as cs), log⟩ = .ok m w) :
    w.draft.Coherent ∧ w.draft.page.WellLabelled := by
  have hscan := keeps_sound_scan rules _ _ (sound_start name as hcs log)
  rw [run_apply] at h
  split at h
  · rename_i k w₁ heq
    cases h
    have hsound : Sound (Page.ofElement name as cs).blocks w₁ := by
      have heq' : scan rules none (Page.ofElement name as cs).blocks _ = .ok m w₁ := heq
      rwa [finalWork, heq'] at hscan
    exact ⟨coherent_excised hsound,
      Page.wellLabelled_keep hsound.intact.labelled fun n => !isMarked n⟩
  · cases h

/-- A run that ends well leaves the lists that its errands make: marks and the removal of directives
touch no list. -/
theorem list_run {rules : DirectiveRules} {name : String} {as : Attributes} {cs : List Node}
    (hcs : ∀ n ∈ cs, isMarked n = false) {log : List Notice} {m : Nat} {w : Work}
    (h : run rules ⟨Draft.ofPage (Page.ofElement name as cs), log⟩ = .ok m w) (p : Place) :
    let done := executeAll (Draft.ofPage (Page.ofElement name as cs)) (errands rules.target cs)
    w.draft.lookup p = done.1.lookup p ∧
      ∀ l, done.1.lookup p = some l → w.draft.page.node? l = done.1.page.node? l := by
  intro done
  have hgrown : Grown (Page.ofElement name as cs).blocks done.1 :=
    grown_errands rules.target name as cs
  have hunmarked : ∀ b ∈ done.1.page.blocks, isMarked b.node = false :=
    isMarked_errands rules.target name as hcs
  obtain ⟨-, -, hblocks⟩ := page_run h
  obtain ⟨hcoherent, hlabels⟩ := coherent_run hcs h
  constructor
  · have hplaced : Catalog.placed Place.start w.draft.page.blocks =
        Catalog.placed Place.start done.1.page.blocks := by
      rw [hblocks]
      refine Catalog.placed_filter (fun b hb htest => ?_) _
      rw [hunmarked b hb] at htest
      exact Catalog.noRole_of_isA (isDirective_of_isFor (by simpa using htest)) (by decide) rfl
    rw [hcoherent, hgrown.coherent, Draft.lookup_rebuild, Draft.lookup_rebuild, hplaced]
  · intro l hl
    obtain ⟨n, hb, hn, hlist⟩ := hgrown.coherent.node?_lookup hgrown.labelled hl
    rw [hn, Page.node?_eq_some_iff hlabels, hblocks]
    refine List.mem_append_left _ (List.mem_filter.2 ⟨hb, ?_⟩)
    have hother : isFor rules.target n = false := isFor_eq_false _ hlist nofun
    simp [hunmarked _ hb, hother]

theorem listAt?_run {rules : DirectiveRules} {name : String} {as : Attributes} {cs : List Node}
    (hcs : ∀ n ∈ cs, isMarked n = false) {log : List Notice} {m : Nat} {w : Work}
    (h : run rules ⟨Draft.ofPage (Page.ofElement name as cs), log⟩ = .ok m w) (p : Place) :
    w.draft.listAt? p = (executeAll (Draft.ofPage (Page.ofElement name as cs))
      (errands rules.target cs)).1.listAt? p := by
  obtain ⟨hlookup, hnode⟩ := list_run hcs h p
  rw [Draft.listAt?, Draft.listAt?, hlookup]
  exact Option.bind_congr hnode

/-- A strict run that ends well carries out all that the directives ask for, loses no term and
invents none. A list on file before is on file after, with its terms; the list of a section with a
directive has the terms that the list it refers to had before; and every term of a list was before
in the list of its own section, or of one that is reached along the directives. -/
theorem terms_of_run (target name : String) (as : Attributes) {cs : List Node}
    (hcs : ∀ n ∈ cs, isMarked n = false) (log : List Notice) {m : Nat} {w : Work}
    (h : run ⟨target, true⟩ ⟨Draft.ofPage (Page.ofElement name as cs), log⟩ = .ok m w) :
    let d := Draft.ofPage (Page.ofElement name as cs)
    let es := errands target cs
    (∀ p l n, d.lookup p = some l → d.page.node? l = some n →
      w.draft.lookup p = some l ∧
        ∃ n', w.draft.page.node? l = some n' ∧ ∀ t, n.HasTerm t → n'.HasTerm t) ∧
    (∀ e ∈ es, ∃ into n, e.routeSection = some into ∧
      w.draft.listAt? ⟨some into, some e.request.kind.label⟩ = some n ∧
      ∀ t, d.HasTerm ⟨some e.request.reference, some e.request.kind.label⟩ t → n.HasTerm t) ∧
    ∀ routeSection kind t, w.draft.HasTerm ⟨routeSection, kind⟩ t →
      ∃ origin, Relation.ReflTransGen (Borrows es kind) routeSection origin ∧
        d.HasTerm ⟨origin, kind⟩ t := by
  intro d es
  have hstart := grown_ofPage (Page.wellLabelled_ofElement name as cs)
  have hscope := standsIn_errands target name as cs
  obtain ⟨-, -, -, hcount, hstrict⟩ := run_ok h
  have hall : (executeAll d es).2 = es.length := hcount.symm.trans (hstrict rfl)
  refine ⟨fun p l n hl hn => ?_, fun e he => ?_, fun routeSection kind t ht => ?_⟩
  · obtain ⟨hlookup, hnode⟩ := list_run hcs h p
    obtain ⟨hkept, n', hn', hterms⟩ := list_executeAll hstart hscope hl hn
    exact ⟨hlookup.trans hkept, n', (hnode l hkept).trans hn', hterms⟩
  · obtain ⟨⟨into, hinto⟩, n, hn, hterms⟩ := hasTerm_of_mem hstart hscope hall he
    refine ⟨into, n, hinto, ?_, hterms⟩
    rw [listAt?_run hcs h, ← hn, Errand.into, hinto]
  · rw [Draft.HasTerm, listAt?_run hcs h] at ht
    exact hasTerm_from hstart hscope ht

/-- A section that borrows from itself, one that borrows from it, and one that borrows from that. -/
theorem terms_of_run_of_chain :
    let directive := fun s => Node.element "for" [("target", .text "docviewer")]
      [.element "Data" [] [.text s]]
    let cs : List Node :=
      [.element "head3" [] [.text "GET /a"], .element "head4" [] [.text "Input"],
        .element "over-text" [] [.element "item-text" [] [.text "q"]],
        directive "input-from GET /a",
        .element "head3" [] [.text "GET /b"], directive "input-from GET /a",
        .element "head3" [] [.text "GET /c"], directive "input-from GET /b"]
    (∀ n ∈ cs, isMarked n = false) ∧
    ∃ w, run ⟨"docviewer", true⟩ ⟨Draft.ofPage (Page.ofElement "Document" [] cs), []⟩ = .ok 3 w ∧
      let d := Draft.ofPage (Page.ofElement "Document" [] cs)
      let es := errands "docviewer" cs
      (∀ p l n, d.lookup p = some l → d.page.node? l = some n →
        w.draft.lookup p = some l ∧
          ∃ n', w.draft.page.node? l = some n' ∧ ∀ t, n.HasTerm t → n'.HasTerm t) ∧
      (∀ e ∈ es, ∃ into n, e.routeSection = some into ∧
        w.draft.listAt? ⟨some into, some e.request.kind.label⟩ = some n ∧
        ∀ t, d.HasTerm ⟨some e.request.reference, some e.request.kind.label⟩ t → n.HasTerm t) ∧
      ∀ routeSection kind t, w.draft.HasTerm ⟨routeSection, kind⟩ t →
        ∃ origin, Relation.ReflTransGen (Borrows es kind) routeSection origin ∧
          d.HasTerm ⟨origin, kind⟩ t := by
  intro directive cs
  have hcs : ∀ n ∈ cs, isMarked n = false := by decide
  have hends : (run ⟨"docviewer", true⟩).run' ⟨Draft.ofPage (Page.ofElement "Document" [] cs), []⟩ =
      some 3 := by
    decide +kernel
  refine ⟨hcs, ?_⟩
  cases hrun : run ⟨"docviewer", true⟩ ⟨Draft.ofPage (Page.ofElement "Document" [] cs), []⟩ with
  | error fault w =>
    delta EStateM.run' EStateM.run at hends
    rw [hrun] at hends
    cases hends
  | ok m w =>
    delta EStateM.run' EStateM.run at hends
    rw [hrun] at hends
    cases hends
    exact ⟨w, rfl, terms_of_run "docviewer" "Document" [] hcs [] hrun⟩

end Directive
end RouteDocs
