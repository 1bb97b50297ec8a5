import RouteDocs.Proofs.Row.Step

/-!
# Putting in a missing list

What `ensureList` does to a page and to the catalog kept with it. The search
goes along with the places of the catalog, so it ends in a gap: a spot inside
the section, at its end or in front of a heading, where a new list gets the
place it is meant for and no other list gets another one. The kept catalog
then answers as one made anew.

Results:
* `locate_endsInGap`: where a section lacks a list, the search ends in a gap.
* `ensureList_of_some`, `ensureList_of_none`: the list on file, or one put in a gap.
* `lookup_ensureList`: the list that is returned is the one on file afterwards.
* `coherent_ensureList`: the kept catalog stays that of the page.
-/
namespace RouteDocs.Draft

open Catalog (placed)

/-- Blocks split where a list of a section belongs: inside the section, under the heading
of its kind or with one to be put in, and at the end or in front of a heading. -/
structure Gap (routeSection kind : String) (p : Place) (before after : List Block)
    (withHeading : Bool) : Prop where
  inSection : (p.afterAll (before.map (·.node))).routeSection = some routeSection
  underHeading : withHeading = false →
    p.afterAll (before.map (·.node)) = ⟨some routeSection, some kind⟩
  beforeHeading : ∀ b, after.head? = some b →
    b.node.endsSection = true ∨ b.node.isA .head4 = true

/-- A search through blocks that starts at a position has found a gap among them. -/
def EndsInGap (routeSection kind : String) (p : Place) (position : Nat) (bs : List Block)
    (s : Spot) : Prop :=
  ∃ before after withHeading, bs = before ++ after ∧
    s = .missing (position + before.length) withHeading ∧
    Gap routeSection kind p before after withHeading

/-- What has been passed goes with a place and with what is still to come. -/
def Passed.Fits (routeSection kind : String) (p : Place) (bs : List Block) : Passed → Prop
  | .nothing => ∃ b ∈ bs, b.node.isA .head3 = true ∧ b.node.flatten = routeSection
  | .sectionHeading => p.routeSection = some routeSection
  | .listHeading => p = ⟨some routeSection, some kind⟩

section
variable {routeSection kind : String} {p : Place} {position : Nat} {b : Block} {bs : List Block}
  {s : Spot}

theorem EndsInGap.cons
    (h : EndsInGap routeSection kind (p.after b.node) (position + 1) bs s) :
    EndsInGap routeSection kind p position (b :: bs) s := by
  obtain ⟨before, after, withHeading, rfl, rfl, hin, hunder, hbefore⟩ := h
  refine ⟨b :: before, after, withHeading, rfl, ?_, hin, hunder, hbefore⟩
  rw [List.length_cons]
  congr 1
  omega

theorem endsInGap_here {withHeading : Bool} (h : Gap routeSection kind p [] bs withHeading) :
    EndsInGap routeSection kind p position bs (.missing position withHeading) :=
  ⟨[], bs, withHeading, rfl, rfl, h⟩

theorem Passed.fits_iff {passed : Passed} :
    passed.Fits routeSection kind p bs ↔
      Row.Fits routeSection kind p (bs.map (·.node)) passed := by
  cases passed with
  | nothing => simp [Passed.Fits, Row.Fits]
  | sectionHeading => exact Iff.rfl
  | listHeading => exact Iff.rfl

theorem gap_of_fits {passed : Passed} (hfits : passed.Fits routeSection kind p bs)
    (hne : passed ≠ .nothing)
    (hhead : ∀ b, bs.head? = some b → b.node.endsSection = true ∨ b.node.isA .head4 = true) :
    Gap routeSection kind p [] bs (passed != .listHeading) := by
  refine ⟨Row.routeSection_of_fits (Passed.fits_iff.1 hfits) hne, fun hunder => ?_, hhead⟩
  cases passed with
  | nothing => exact absurd rfl hne
  | sectionHeading => cases hunder
  | listHeading => exact hfits

/-- Where a section on the page lacks a list, the search for it ends in a gap. -/
theorem locate_endsInGap {passed : Passed} (hfits : passed.Fits routeSection kind p bs)
    (hnone : Entries.get? (placed p bs) ⟨some routeSection, some kind⟩ = none) :
    EndsInGap routeSection kind p position bs (locate routeSection kind passed position bs) := by
  induction bs generalizing passed p position with
  | nil =>
    have hne := Row.ne_nothing_of_fits (Passed.fits_iff.1 hfits)
    rw [locate]
    exact endsInGap_here (gap_of_fits hfits hne (by simp))
  | cons b rest ih =>
    rw [placed, Entries.get?_append, Option.or_eq_none_iff] at hnone
    obtain ⟨hb, hrest⟩ := hnone
    rw [Row.locate_cons]
    cases hstops : Row.stops kind passed b.node with
    | true =>
      rw [if_pos rfl]
      refine endsInGap_here (gap_of_fits hfits (Row.ne_nothing_of_stops hstops) ?_)
      rintro c ⟨⟩
      exact Row.heading_of_stops hstops
    | false =>
      -- a list under the heading would be filed under the place that has none
      have hlist : ¬(passed = .listHeading ∧ b.node.isA .definitionList = true) := by
        rintro ⟨rfl, hlist⟩
        have hp : p = ⟨some routeSection, some kind⟩ := hfits
        rw [hp] at hb
        simp [hlist, Entries.get?] at hb
      rw [if_neg Bool.false_ne_true, if_neg hlist]
      exact (ih (Passed.fits_iff.2 (Row.fits_pass (Passed.fits_iff.1 hfits) hstops)) hrest).cons

end

/-! ## The scaffold -/

theorem afterAll_scaffold (p : Place) (kind : String) (withHeading : Bool) :
    p.afterAll (scaffold kind withHeading) =
      if withHeading then ⟨p.routeSection, some kind⟩ else p := by
  have hheading : p.after (Node.newHeading 4 kind) = ⟨p.routeSection, some kind⟩ := by
    rw [Place.after_head4 rfl]
    simp [Node.newHeading, Node.flatten, Node.flattenAll]
  have hlist : ∀ q : Place, q.after Node.newDefinitionList = q := fun _ => rfl
  cases withHeading with
  | false => exact hlist p
  | true => exact (hlist _).trans hheading

theorem placed_scaffold (p : Place) (l : Nat) (kind : String) (withHeading : Bool) :
    placed p (Page.label l (scaffold kind withHeading)) =
      [(p.afterAll (scaffold kind withHeading), l + (scaffold kind withHeading).length - 1)] := by
  rw [afterAll_scaffold]
  cases withHeading with
  | false => rfl
  | true =>
    have h := afterAll_scaffold p kind true
    simp only [if_pos] at h ⊢
    rw [← h]
    rfl

theorem Gap.afterAll_scaffold {routeSection kind : String} {p : Place}
    {before after : List Block} {withHeading : Bool}
    (h : Gap routeSection kind p before after withHeading) :
    (p.afterAll (before.map (·.node))).afterAll (scaffold kind withHeading) =
      ⟨some routeSection, some kind⟩ := by
  rw [Draft.afterAll_scaffold]
  cases withHeading with
  | false => exact h.underHeading rfl
  | true => rw [if_pos rfl, h.inSection]

theorem get?_placed_scaffold {routeSection kind : String} {p k : Place}
    {before after : List Block} {withHeading : Bool}
    (hgap : Gap routeSection kind p before after withHeading)
    (hnone : Entries.get? (placed p (before ++ after)) ⟨some routeSection, some kind⟩ = none)
    (l : Nat) :
    Entries.get? (placed p (before ++ Page.label l (scaffold kind withHeading) ++ after)) k =
      (Entries.get? (placed p (before ++ after)) k).or
        (if ⟨some routeSection, some kind⟩ = k then
          some (l + (scaffold kind withHeading).length - 1) else none) := by
  refine Catalog.get?_placed_splice hnone ?_ ?_ k
  · rw [placed_scaffold, hgap.afterAll_scaffold]
  · rw [Page.map_node_label, hgap.afterAll_scaffold]
    exact Catalog.placed_congr hgap.inSection.symm hgap.beforeHeading

theorem page_ensureList (d : Draft) (routeSection kind : String) :
    (d.ensureList routeSection kind).1.page = d.page ∨
      ∃ position withHeading, (d.ensureList routeSection kind).1.page =
        d.page.insertAt position (scaffold kind withHeading) := by
  unfold ensureList
  dsimp only
  split
  · exact .inl rfl
  · split
    · exact .inl rfl
    · exact .inr ⟨_, _, rfl⟩

/-! ## The kept catalog -/

/-- The kept catalog answers as one made of the page as it stands. -/
def Coherent (d : Draft) : Prop :=
  ∀ p, d.lookup p = d.rebuild.lookup p

theorem lookup_rebuild (d : Draft) (p : Place) :
    d.rebuild.lookup p = Entries.get? (placed Place.start d.page.blocks) p :=
  Catalog.get?_ofPage d.page p

theorem coherent_ofPage (p : Page) : (ofPage p).Coherent :=
  fun _ => rfl

theorem Coherent.mem_blocks {d : Draft} (h : d.Coherent) {p : Place} {l : Nat}
    (hl : d.lookup p = some l) :
    ∃ b ∈ d.page.blocks, b.label = l ∧ b.node.isA .definitionList = true := by
  rw [h p, lookup_rebuild] at hl
  exact Catalog.mem_placed (Entries.mem_of_get? hl)

theorem Coherent.isList {d : Draft} (h : d.Coherent) (hlabels : d.page.WellLabelled) {p : Place}
    {l : Nat} (hl : d.lookup p = some l) {b : Block} (hb : b ∈ d.page.blocks) (hbl : b.label = l) :
    b.node.isA .definitionList = true := by
  obtain ⟨c, hc, hcl, hlist⟩ := h.mem_blocks hl
  obtain rfl := Page.eq_of_label_eq hlabels (List.mem_append_left _ hb) (List.mem_append_left _ hc)
    (hbl.trans hcl.symm)
  exact hlist

/-- A list is on file under one place only. -/
theorem Coherent.place_eq {d : Draft} (h : d.Coherent) (hlabels : d.page.WellLabelled) {p q : Place}
    {l : Nat} (hp : d.lookup p = some l) (hq : d.lookup q = some l) : p = q := by
  rw [h, lookup_rebuild] at hp hq
  have hnodup : (Page.labels d.page.blocks).Nodup :=
    hlabels.nodup.sublist ((List.sublist_append_left _ _).map _)
  exact Catalog.place_eq_of_mem_placed hnodup (Entries.mem_of_get? hp) (Entries.mem_of_get? hq)

/-- An edit that moves no list keeps a draft coherent. -/
theorem Coherent.withPage {d : Draft} (h : d.Coherent) {q : Page}
    (hq : placed Place.start q.blocks = placed Place.start d.page.blocks) :
    ({ d with page := q } : Draft).Coherent := by
  intro p
  cases hm : d.made with
  | none => simp [lookup, rebuild, catalog]
  | some c =>
    have := h p
    rw [lookup_rebuild] at this ⊢
    rw [hq, ← this]
    simp [lookup, catalog, hm]

/-- Nor does such an edit change what is on file. -/
theorem Coherent.lookup_withPage {d : Draft} (h : d.Coherent) {q : Page}
    (hq : placed Place.start q.blocks = placed Place.start d.page.blocks) (p : Place) :
    ({ d with page := q } : Draft).lookup p = d.lookup p := by
  rw [h.withPage hq, h, lookup_rebuild, lookup_rebuild, hq]

/-- The draft after a list has been put in at a position, with or without a heading. -/
def putIn (d : Draft) (routeSection kind : String) (position : Nat) (withHeading : Bool) : Draft :=
  { d.withCatalog with page := d.page.insertAt position (scaffold kind withHeading) }.register
    ⟨some routeSection, some kind⟩ (d.page.nextLabel + (scaffold kind withHeading).length - 1)

section
variable {d : Draft} {routeSection kind : String}

theorem ensureList_of_some {l : Nat} (h : d.lookup ⟨some routeSection, some kind⟩ = some l) :
    d.ensureList routeSection kind = (d.withCatalog, l, []) := by
  have hkept : d.withCatalog.lookup ⟨some routeSection, some kind⟩ = some l := h
  simp only [ensureList, hkept]

theorem locate_of_none (hd : d.Coherent)
    (hsection : ∃ b ∈ d.page.blocks, b.node.isA .head3 = true ∧ b.node.flatten = routeSection)
    (h : d.lookup ⟨some routeSection, some kind⟩ = none) :
    ∃ before after withHeading, d.page.blocks = before ++ after ∧
      Gap routeSection kind Place.start before after withHeading ∧
      locate routeSection kind .nothing 0 d.page.blocks = .missing before.length withHeading := by
  have hnone := h
  rw [hd, lookup_rebuild] at hnone
  have hfits : Passed.nothing.Fits routeSection kind Place.start d.page.blocks := hsection
  have hends : EndsInGap routeSection kind Place.start 0 d.page.blocks _ :=
    locate_endsInGap hfits hnone
  obtain ⟨before, after, withHeading, hblocks, hspot, hgap⟩ := hends
  rw [Nat.zero_add] at hspot
  exact ⟨before, after, withHeading, hblocks, hgap, hspot⟩

theorem ensureList_of_missing {position : Nat} {withHeading : Bool}
    (h : d.lookup ⟨some routeSection, some kind⟩ = none)
    (hlocate : locate routeSection kind .nothing 0 d.page.blocks = .missing position withHeading) :
    d.ensureList routeSection kind =
      (d.putIn routeSection kind position withHeading,
        d.page.nextLabel + (scaffold kind withHeading).length - 1,
        [.inserted withHeading kind position]) := by
  have hkept : d.withCatalog.lookup ⟨some routeSection, some kind⟩ = none := h
  have hspot : locate routeSection kind .nothing 0 d.withCatalog.page.blocks =
      .missing position withHeading := hlocate
  simp only [ensureList, hkept, hspot]
  rfl

/-- A list that a section of the page lacks is put in, in a gap. -/
theorem ensureList_of_none (hd : d.Coherent)
    (hsection : ∃ b ∈ d.page.blocks, b.node.isA .head3 = true ∧ b.node.flatten = routeSection)
    (h : d.lookup ⟨some routeSection, some kind⟩ = none) :
    ∃ before after withHeading, d.page.blocks = before ++ after ∧
      Gap routeSection kind Place.start before after withHeading ∧
      d.ensureList routeSection kind =
        (d.putIn routeSection kind before.length withHeading,
          d.page.nextLabel + (scaffold kind withHeading).length - 1,
          [.inserted withHeading kind before.length]) := by
  obtain ⟨before, after, withHeading, hblocks, hgap, hlocate⟩ := locate_of_none hd hsection h
  exact ⟨before, after, withHeading, hblocks, hgap, ensureList_of_missing h hlocate⟩

theorem blocks_putIn {before after : List Block} (h : d.page.blocks = before ++ after)
    (withHeading : Bool) :
    (d.putIn routeSection kind before.length withHeading).page.blocks =
      before ++ Page.label d.page.nextLabel (scaffold kind withHeading) ++ after := by
  simp [putIn, register, withCatalog, Page.insertAt, h]

theorem lookup_putIn (position : Nat) (withHeading : Bool) (k : Place) :
    (d.putIn routeSection kind position withHeading).lookup k =
      (d.lookup k).or (if ⟨some routeSection, some kind⟩ = k then
        some (d.page.nextLabel + (scaffold kind withHeading).length - 1) else none) :=
  Entries.get?_putNew d.catalog _ k _

theorem coherent_putIn (hd : d.Coherent) {before after : List Block} {withHeading : Bool}
    (hblocks : d.page.blocks = before ++ after)
    (hgap : Gap routeSection kind Place.start before after withHeading)
    (hnone : d.lookup ⟨some routeSection, some kind⟩ = none) :
    (d.putIn routeSection kind before.length withHeading).Coherent := by
  intro k
  rw [hd, lookup_rebuild, hblocks] at hnone
  rw [lookup_putIn, lookup_rebuild, blocks_putIn hblocks, get?_placed_scaffold hgap hnone, hd k,
    lookup_rebuild, hblocks]

theorem coherent_ensureList (hd : d.Coherent)
    (hsection : ∃ b ∈ d.page.blocks, b.node.isA .head3 = true ∧ b.node.flatten = routeSection) :
    (d.ensureList routeSection kind).1.Coherent := by
  cases h : d.lookup ⟨some routeSection, some kind⟩ with
  | some l =>
    rw [ensureList_of_some h]
    exact hd
  | none =>
    obtain ⟨before, after, withHeading, hblocks, hgap, heq⟩ := ensureList_of_none hd hsection h
    rw [heq]
    exact coherent_putIn hd hblocks hgap h

theorem lookup_ensureList (hd : d.Coherent)
    (hsection : ∃ b ∈ d.page.blocks, b.node.isA .head3 = true ∧ b.node.flatten = routeSection)
    (kind : String) :
    (d.ensureList routeSection kind).1.lookup ⟨some routeSection, some kind⟩ =
      some (d.ensureList routeSection kind).2.1 := by
  cases h : d.lookup ⟨some routeSection, some kind⟩ with
  | some l =>
    rw [ensureList_of_some h]
    exact h
  | none =>
    obtain ⟨before, after, withHeading, -, -, heq⟩ := ensureList_of_none hd hsection h
    rw [heq, lookup_putIn, h, if_pos rfl, Option.none_or]

end

end RouteDocs.Draft
