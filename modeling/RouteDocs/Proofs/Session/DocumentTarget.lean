import RouteDocs.Proofs.Session.Bundle

/-!
# The link to a whole document

On a page that several trees share, one pass over the names of the modules and the
headings of the routes, in order, hands out all identifiers. The index of a module
can link to the whole document, at a target made of the identifier of the module and
no business of that pass. A heading whose identifier would be the target has it like
any other. So the target is one of the page's identifiers exactly if the first to ask
for it is a module or a panel; a heading that is no panel keeps it from all others.

Results:
* `fresh_eq_iff`: who is given an identifier that ends in no digit.
* `mem_given_fill_iff`: which slots hold such an identifier.
* `documentLink_eq`: the link to a whole document and what it leads to.
* `identifiers_eq_given`: the identifiers of a page as what one pass hands out.
* `documentTarget_iff`: when the target of a link to a whole document is an identifier of the page.
-/
namespace RouteDocs

/-! ## Identifiers without a number -/

namespace Identifiers

/-- An identifier that ends in no digit, so that it is no numbered form. -/
def Unnumbered (x : String) : Prop :=
  ∀ c ∈ x.toList.getLast?, c.isDigit = false

theorem not_unnumbered_choice (base : String) (k : Nat) :
    ¬Unnumbered (choice base (k + 1)) := by
  intro h
  have hne : (toString k).toList ≠ [] := by
    rw [Nat.toString_eq_repr, Nat.toList_repr]
    exact Nat.toDigits_ne_nil
  have hlast : (choice base (k + 1)).toList.getLast? = some ((toString k).toList.getLast hne) := by
    rw [choice, String.toList_append, List.getLast?_append, List.getLast?_eq_some_getLast hne,
      Option.some_or]
  have hmem : (toString k).toList.getLast hne ∈ Nat.toDigits 10 k := by
    rw [← Nat.toList_repr, ← Nat.toString_eq_repr]
    exact List.getLast_mem hne
  have hdigit := Nat.isDigit_of_mem_toDigits (by decide) (by decide) hmem
  rw [h _ hlast] at hdigit
  cases hdigit

/-- An identifier that ends in no digit is given to a text that stands for it, while it is free,
and to no other. -/
theorem fresh_eq_iff {ids : Identifiers} {s x : String} (hx : Unnumbered x) :
    ids.fresh s = x ↔ ids.normalize s = x ∧ x ∉ ids.issued := by
  constructor
  · intro hfresh
    obtain ⟨k, hk, hfree, -⟩ := ids.fresh_eq_choice s
    rw [hfresh] at hk
    rw [← hk] at hfree
    cases k with
    | zero => exact ⟨hk.symm, hfree⟩
    | succ k => exact absurd (hk ▸ hx) (not_unnumbered_choice _ k)
  · rintro ⟨hbase, hfree⟩
    rw [fresh, hbase, if_neg (by rwa [List.contains_iff_mem])]

end Identifiers

/-! ## The target -/

namespace Html.Navigation

/-- The identifier that the link to the whole document leads to. -/
def documentTarget (nav : Navigation) : String :=
  nav.moduleId ++ "-pod"

theorem documentLink_eq (nav : Navigation) :
    nav.documentLink = "<a href=\"" ++ nav.config.anchorPrefix ++ nav.documentTarget ++ "\" " ++
      nav.foldAttributes ++ " id=\"" ++ nav.moduleId ++
        "\" class=\"pod-link showpanel\">Full POD</a>" := by
  have hassoc : ∀ s id : String,
      s ++ (id ++ "-pod") ++ "\" " = s ++ id ++ ("-pod" ++ "\" ") := fun s id => by
    rw [← String.append_assoc, String.append_assoc]
  rw [documentTarget, hassoc]
  rfl

theorem documentLink_mem_lines (nav : Navigation) {headings : List Node}
    (h : headings.head?.any opensGroup = true) : nav.documentLink ∈ nav.lines headings := by
  cases headings with
  | nil => cases h
  | cons n rest =>
    have hopens : opensGroup n = true := h
    rw [lines, firstLines, if_pos hopens]
    simp

theorem unnumbered_documentTarget (nav : Navigation) :
    Identifiers.Unnumbered nav.documentTarget := by
  intro c hc
  rw [documentTarget, String.toList_append, List.getLast?_append] at hc
  cases hc
  rfl

end Html.Navigation

/-! ## Slots that ask for an identifier -/

namespace Slot

/-- The first slot whose text stands for an identifier. -/
def firstFor (fallback x : String) (slots : List Slot) : Option Slot :=
  slots.find? fun s => Identifier.normalize fallback s.text = x

section
variable {fallback x : String} {s : Slot} {slots : List Slot}

theorem firstFor_cons_of_eq (h : Identifier.normalize fallback s.text = x) :
    firstFor fallback x (s :: slots) = some s :=
  List.find?_cons_of_pos (decide_eq_true h)

theorem firstFor_cons_of_ne (h : Identifier.normalize fallback s.text ≠ x) :
    firstFor fallback x (s :: slots) = firstFor fallback x slots :=
  List.find?_cons_of_neg (by simpa using h)

/-- An identifier that ends in no digit goes to the first slot whose text stands for it. -/
theorem mem_given_fill_iff {wanted : Bool → Bool} {ids : Identifiers}
    (hx : Identifiers.Unnumbered x) (hslots : Empty all slots) (hfree : x ∉ ids.issued) :
    .text x ∈ given wanted (fill all ids slots).1 ↔
      ∃ s, firstFor ids.fallback x slots = some s ∧ wanted s.top = true := by
  induction ids, slots, hslots using empty_induction with
  | nil ids _ => simp [fill, given, firstFor]
  | filled ids s slots _ ha h ih =>
    rw [fill_cons_empty rfl ha, mem_given_cons]
    by_cases hs : Identifier.normalize ids.fallback s.text = x
    · have hfresh : ids.fresh s.text = x := (Identifiers.fresh_eq_iff hx).2 ⟨hs, hfree⟩
      have hissued : x ∈ (ids.allocate s.text).2.issued :=
        Identifiers.mem_issued_allocate.2 (.inr hfresh.symm)
      have hlater : .text x ∉ given wanted (fill all (ids.allocate s.text).2 slots).1 := by
        intro hmem
        rcases mem_given_fill hmem with hmem | ⟨y, hy, heq⟩
        · rw [given_of_empty h.tail.mono] at hmem
          cases hmem
        · exact hy (Value.text.inj heq ▸ hissued)
      rw [firstFor_cons_of_eq hs]
      constructor
      · rintro (⟨hw, -⟩ | hmem)
        · exact ⟨s, rfl, hw⟩
        · exact absurd hmem hlater
      · rintro ⟨_, ⟨⟩, hw⟩
        exact .inl ⟨hw, by rw [hfresh]⟩
    · have hne : ids.fresh s.text ≠ x := fun heq => hs ((Identifiers.fresh_eq_iff hx).1 heq).1
      have hfree' : x ∉ (ids.allocate s.text).2.issued := by
        rw [Identifiers.mem_issued_allocate, not_or]
        exact ⟨hfree, Ne.symm hne⟩
      have hrest := ih hfree'
      rw [Identifiers.fallback_allocate] at hrest
      rw [firstFor_cons_of_ne hs, ← hrest]
      constructor
      · rintro (⟨-, heq⟩ | hmem)
        · exact absurd (Value.text.inj (Option.some.inj heq)) hne
        · exact hmem
      · exact .inr
  | passed ids s slots hw _ _ => cases hw

end
end Slot

/-! ## The requests of a document -/

namespace Document

/-- What a document asks identifiers for: its name, and then the headings on its page. -/
def slots (d : Document) : List Slot :=
  ⟨true, d.moduleName, none⟩ :: Heading.pageSlots d.tree

/-- The headings of the index of a document that is asked for its identifier first. -/
def listedHeadings (d : Document) : List Node :=
  (Heading.anchorFound (d.ids.allocate d.moduleName).2 d.tree).1.find Html.Navigation.isHeading

/-- A document that is put on a page with identifiers in use. -/
def startedWith (seed : List String) (log : List Notice) (d : Document) : Document :=
  { d with ids := Identifiers.ofSeed seed d.config.fallbackPrefix, log := log }

theorem Untouched.startedWith {d : Document} (h : d.Untouched) (seed : List String)
    (log : List Notice) : (d.startedWith seed log).Untouched :=
  ⟨h.clean, h.moduleId, h.routes, h.index⟩

/-- The identifiers in use have no part in the making of a document. -/
theorem ofPage_startedWith [Html.Highlighter] {c : Config} {path : Option String}
    {seed : List String} {p : Page} {d : Document} (h : ofPage c path seed p = .ok d)
    (log : List Notice) :
    ∃ d₀, ofPage c path [] p = .ok d₀ ∧ { d with log := log } = d₀.startedWith seed log := by
  obtain ⟨w, hok, rfl⟩ := ofPage_ok_iff.1 h
  exact ⟨_, ofPage_ok_iff.2 ⟨w, hok, rfl⟩, rfl⟩

end Document

namespace CommandLine

section
variable {d d' : Document} {f : Fragments}

/-- One pass over what a document asks for hands out the identifiers of its fragments. -/
theorem identifiers_of_asked (hd : d.Untouched) (h : Asked d f d') :
    f.identifiers = Slot.given Slot.tops (Slot.fill Slot.all d.ids d.slots).1 ∧
      d'.ids = (Slot.fill Slot.all d.ids d.slots).2 := by
  obtain ⟨hid, hkeys, hids⟩ := asked_ok hd h
  have hfill : Slot.fill Slot.all d.ids d.slots = _ := Slot.fill_cons_empty rfl rfl
  rw [hfill, Heading.fill_index_first]
  refine ⟨?_, hids⟩
  rw [Slot.given_cons_some rfl rfl, Heading.given_pageSlots_tops, Fragments.identifiers, hid, hkeys]

theorem index_of_asked (hd : d.Untouched) (h : Asked d f d') :
    f.index = (⟨d.config.rendering, f.moduleId⟩ : Html.Navigation).text d.listedHeadings := by
  obtain ⟨hid, hindex, -⟩ := asked_eq hd h
  obtain ⟨-, htree, hids⟩ := Document.identified_of_none hd.moduleId
  rw [hindex, hid, Document.indexed, hd.index, Document.listedHeadings, ← htree, ← hids,
    ← (Document.sameSetting_identified d).config]
  rfl

end

/-! ## One document after the other -/

section
variable [Html.Highlighter]

/-- The document of a tree on a web page of its own, if it can be made. -/
def prepared? (c : Config) : Node × String → Option Document
  | (n, module) =>
    match (Page.ofNode? n).map (Document.ofPage c (some module) []) with
    | some (.ok d) => some d
    | _ => none

/-- What the document of a tree asks identifiers for, in order. -/
def requests (c : Config) (a : Node × String) : List Slot :=
  (prepared? c a).elim [] Document.slots

section
variable {c : Config} {seed : List String} {a : Node × String} {items rest : List (Node × String)}
  {log log' : List Notice} {fs : List Fragments}

theorem requests_of_prepared {d : Document} (h : prepared? c a = some d) :
    requests c a = d.slots := by
  rw [requests, h]
  rfl

theorem prepared_eq_some {d : Document} (ha : Anchor.isAbsent a.1 = true)
    (h : prepared? c a = some d) : d.Untouched ∧ d.config = c := by
  obtain ⟨n, module⟩ := a
  cases n with
  | text s => cases h
  | element name as cs =>
    rw [prepared?, Page.ofNode?, Option.map_some] at h
    split at h
    · rename_i d₁ hd
      cases h
      have hd : Document.ofPage c (some module) [] (Page.ofElement name as cs) = .ok d :=
        Option.some.inj hd
      exact ⟨Document.untouched_ofPage ha hd, Document.config_ofPage hd⟩
    · cases h

theorem empty_requests (ha : Anchor.isAbsent a.1 = true) (c : Config) :
    Slot.Empty Slot.all (requests c a) := by
  cases hd : prepared? c a with
  | none =>
    rw [requests, hd]
    exact fun s hs => absurd hs List.not_mem_nil
  | some d =>
    rw [requests_of_prepared hd]
    have hempty := Document.empty_pageSlots (prepared_eq_some ha hd).1
    exact List.forall_mem_cons.2 ⟨fun _ => rfl, hempty⟩

theorem fragments_openTree_cons_ok (h : fragments openTree c seed (a :: rest) log = .ok fs log') :
    ∃ d log₁ f d' fs', prepared? c a = some d ∧ Asked (d.startedWith seed log₁) f d' ∧
      fragments openTree c d'.ids.issued rest d'.log = .ok fs' log' ∧ fs = f :: fs' := by
  obtain ⟨n, module⟩ := a
  obtain ⟨p, module', log₁, d, log₂, f, d', fs', hp, hd, hasked, hrest, hfs⟩ := fragments_cons_ok h
  obtain ⟨d₀, hd₀, hstart⟩ := Document.ofPage_startedWith hd log₂
  refine ⟨d₀, log₂, f, d', fs', ?_, hstart ▸ hasked, hrest, hfs⟩
  obtain ⟨hn, rfl, -⟩ := openTree_ok_iff.1 hp
  rw [prepared?, hn, Option.map_some, hd₀]

/-- One pass over what the documents ask for, one after the other, hands out the identifiers of
the page. -/
theorem identifiers_eq_given (habsent : ∀ a ∈ items, Anchor.isAbsent a.1 = true)
    (h : fragments openTree c seed items log = .ok fs log') :
    fs.flatMap Fragments.identifiers =
      Slot.given Slot.tops (Slot.fill Slot.all (Identifiers.ofSeed seed c.fallbackPrefix)
        (items.flatMap (requests c))).1 := by
  induction items generalizing seed log fs with
  | nil =>
    cases h
    rfl
  | cons a rest ih =>
    obtain ⟨ha, hlater⟩ := List.forall_mem_cons.1 habsent
    obtain ⟨d, log₁, f, d', fs', hd, hasked, hrest, rfl⟩ := fragments_openTree_cons_ok h
    obtain ⟨huntouched, rfl⟩ := prepared_eq_some ha hd
    have hasked := identifiers_of_asked (huntouched.startedWith seed log₁) hasked
    have hslots : (d.startedWith seed log₁).slots = requests d.config a :=
      (requests_of_prepared hd).symm
    have hids : (d.startedWith seed log₁).ids =
        Identifiers.ofSeed seed d.config.fallbackPrefix := rfl
    rw [hslots, hids] at hasked
    obtain ⟨hfirst, hafter⟩ := hasked
    have hfallback : (Identifiers.ofSeed d'.ids.issued d.config.fallbackPrefix).fallback =
        d'.ids.fallback := by
      rw [hafter, Slot.fallback_fill]
      rfl
    -- the next document starts with the same identifiers in use, in a list made anew
    have hseed := Slot.fill_congr hfallback (fun x => Identifiers.mem_issued_ofSeed)
      Slot.all (rest.flatMap (requests d.config))
    rw [List.flatMap_cons, List.flatMap_cons, Slot.fill_append, Slot.given_append, hfirst,
      ih hlater hrest, hseed, hafter]

theorem index_of_fragments (habsent : ∀ a ∈ items, Anchor.isAbsent a.1 = true)
    (h : fragments openTree c seed items log = .ok fs log') :
    ∀ f ∈ fs, ∃ headings,
      f.index = (⟨c.rendering, f.moduleId⟩ : Html.Navigation).text headings := by
  induction items generalizing seed log fs with
  | nil =>
    cases h
    exact nofun
  | cons a rest ih =>
    obtain ⟨ha, hlater⟩ := List.forall_mem_cons.1 habsent
    obtain ⟨d, log₁, f, d', fs', hd, hasked, hrest, rfl⟩ := fragments_openTree_cons_ok h
    obtain ⟨huntouched, rfl⟩ := prepared_eq_some ha hd
    have hindex := index_of_asked (huntouched.startedWith seed log₁) hasked
    exact List.forall_mem_cons.2 ⟨⟨_, hindex⟩, ih hlater hrest⟩

end

/-- Trees without anchors that are put on one web page: the index of each links to the whole
document by the identifier of the module with an ending. No module and no route of the page has
this for its identifier, unless the first to ask for it, of the modules and headings in order, is a
module or a heading among the top-level nodes. -/
theorem documentTarget_iff {c : Config} {items : List (Node × String)} {log log' : List Notice}
    {fs : List Fragments} (habsent : ∀ a ∈ items, Anchor.isAbsent a.1 = true)
    (h : fragments openTree c [] items log = .ok fs log') :
    ∀ f ∈ fs,
      let nav : Html.Navigation := ⟨c.rendering, f.moduleId⟩
      (∃ headings, f.index = nav.text headings) ∧
      (.text nav.documentTarget ∉ fs.flatMap Fragments.identifiers ↔
        ∀ s, Slot.firstFor c.fallbackPrefix nav.documentTarget (items.flatMap (requests c)) =
          some s → s.top = false) := by
  intro f hf nav
  refine ⟨index_of_fragments habsent h f hf, ?_⟩
  have hempty : Slot.Empty Slot.all (items.flatMap (requests c)) := by
    intro s hs
    obtain ⟨a, ha, hs⟩ := List.mem_flatMap.1 hs
    exact empty_requests (habsent a ha) c s hs
  rw [identifiers_eq_given habsent h,
    Slot.mem_given_fill_iff nav.unnumbered_documentTarget hempty List.not_mem_nil]
  simp only [not_exists, not_and, Bool.not_eq_true]
  exact Iff.rfl

end

/-- Two modules of one name, with a heading inside a paragraph that would be the target of the
first. -/
theorem documentTarget_iff_of_nested_heading :
    let tree := Node.element "Document" [] [.element "head1" [] [.text "Shop"],
      .element "Para" [] [.element "head3" [] [.text "Shop POD"]]]
    let items := [(tree, "/srv/lib/Shop.pm"), (tree, "/srv/lib/Shop.pm")]
    ∃ fs log, fragments openTree Config.default [] items [] = .ok fs log ∧
      fs.map Fragments.moduleId = ["shop", "shop0"] ∧
      ∀ f ∈ fs, .text (f.moduleId ++ "-pod") ∉ fs.flatMap Fragments.identifiers := by
  intro tree items
  have habsent : ∀ a ∈ items, Anchor.isAbsent a.1 = true := by decide
  have hids : (match fragments openTree Config.default [] items [] with
      | .ok fs _ => decide (fs.map Fragments.moduleId = ["shop", "shop0"])
      | .error .. => false) = true := by decide +kernel
  have hfirst : ∀ id ∈ ["shop", "shop0"], ∀ s,
      Slot.firstFor "pod" (id ++ "-pod") (items.flatMap (requests Config.default)) = some s →
        s.top = false := by
    have htop : ∀ id ∈ ["shop", "shop0"],
        ((Slot.firstFor "pod" (id ++ "-pod") (items.flatMap (requests Config.default))).any
          fun s => s.top) = false := by decide +kernel
    intro id hid s hs
    have hs' := htop id hid
    rwa [hs] at hs'
  cases h : fragments openTree Config.default [] items [] with
  | error f log =>
    rw [h] at hids
    cases hids
  | ok fs log =>
    rw [h] at hids
    have hids := of_decide_eq_true hids
    refine ⟨fs, log, rfl, hids, fun f hf => ?_⟩
    have hid : f.moduleId ∈ ["shop", "shop0"] := hids ▸ List.mem_map_of_mem hf
    exact (documentTarget_iff habsent h f hf).2.2 (hfirst _ hid)

/-- A panel that the link to the whole document leads to. -/
theorem documentTarget_of_panel :
    let tree := Node.element "Document" [] [.element "head1" [] [.text "Shop"],
      .element "head3" [] [.text "Shop POD"]]
    let nav : Html.Navigation := ⟨Config.default.rendering, "shop"⟩
    ∃ f log, Anchor.isAbsent tree = true ∧
      fragments openTree Config.default [] [(tree, "/srv/lib/Shop.pm")] [] = .ok [f] log ∧
      f.moduleId = "shop" ∧
      (∃ headings, f.index = nav.text headings ∧ nav.documentLink ∈ nav.lines headings) ∧
      nav.documentTarget = "shop-pod" ∧ Entries.keys f.routes = [.text "shop-pod"] := by
  intro tree nav
  have habsent : Anchor.isAbsent tree = true := by decide
  have hpage : (match fragments openTree Config.default [] [(tree, "/srv/lib/Shop.pm")] [] with
      | .ok fs _ => decide (fs.map (fun f => (f.moduleId,
          (Entries.keys f.routes).map (Value.sameKey · (.text "shop-pod")))) = [("shop", [true])])
      | .error .. => false) = true := by decide +kernel
  have hopens : (prepared? Config.default (tree, "/srv/lib/Shop.pm")).any (fun d =>
      (d.startedWith [] []).listedHeadings.head?.any Html.Navigation.opensGroup) = true := by
    decide +kernel
  cases h : fragments openTree Config.default [] [(tree, "/srv/lib/Shop.pm")] [] with
  | error f log =>
    rw [h] at hpage
    cases hpage
  | ok fs log =>
    rw [h] at hpage
    obtain ⟨f, rfl, hf⟩ := List.map_eq_singleton_iff.1 (of_decide_eq_true hpage)
    obtain ⟨hid, hkeys⟩ := Prod.mk.inj hf
    obtain ⟨key, hkeys, hkey⟩ := List.map_eq_singleton_iff.1 hkeys
    rw [Document.eq_text_of_sameKey hkey] at hkeys
    obtain ⟨d, log₁, f', d', fs', hd, hasked, -, hfs⟩ := fragments_openTree_cons_ok h
    obtain ⟨huntouched, hconfig⟩ := prepared_eq_some habsent hd
    cases hfs
    have hindex := index_of_asked (huntouched.startedWith [] log₁) hasked
    have hdsetting : (d.startedWith [] log₁).config = Config.default := hconfig
    rw [hdsetting, hid] at hindex
    rw [hd, Option.any_some] at hopens
    exact ⟨f, log, habsent, rfl, hid, ⟨_, hindex, nav.documentLink_mem_lines hopens⟩, by decide,
      hkeys⟩

end CommandLine
end RouteDocs
