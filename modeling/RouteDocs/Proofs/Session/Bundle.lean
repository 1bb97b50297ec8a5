import RouteDocs.CommandLine.Run
import RouteDocs.Proofs.Config.Reader
import RouteDocs.Proofs.Session.Agreement

/-!
# Identifiers of several documents on one web page

A page that several trees share is made of their fragments, tree after tree:
each document starts with the identifiers in use after the one before. So what
a document hands out, for itself and for its routes, is new on the page, and
nothing is handed out twice.

Results:
* `exists_letter_of_ofSetting`: an accepted configuration has a letter to fall back on.
* `handed_asked`: what a document hands out is new and each time another one.
* `fragments_cons_ok`: fragments are made of one document after the other.
* `identifiers_of_fragments`: no two identifiers on the page are the same, and all are well-formed.
-/
namespace RouteDocs

/-! ## The prefix of a configuration -/

namespace Text.WideText

theorem eq_ofChars {s : WideText} {t : List Char} (h : chars? s = some t) : s = ofChars t := by
  induction s generalizing t with
  | nil =>
    cases h
    rfl
  | cons d s ih =>
    rw [chars?, List.mapM_cons] at h
    cases hd : d.char? with
    | none => simp [hd] at h
    | some e =>
      cases hs : s.mapM CodePoint.char? with
      | none => simp [hd, hs] at h
      | some t' =>
        obtain rfl : e :: t' = t := by simpa [hd, hs] using h
        obtain rfl : d = .char e := by
          cases d with
          | char c =>
            cases hd
            rfl
          | half n => cases hd
        rw [ih hs]
        rfl

theorem mem_chars? {s : WideText} {t : List Char} (h : chars? s = some t) {c : Char}
    (hc : .char c ∈ s) : c ∈ t := by
  rw [eq_ofChars h, ofChars] at hc
  obtain ⟨d, hd, heq⟩ := List.mem_map.1 hc
  cases heq
  exact hd

end Text.WideText

namespace Config

/-- The prefix of an accepted configuration starts with a letter. -/
theorem isFallback_of_ofSetting {s : Setting} {w : WideConfig} (h : ofSetting s = .ok w) :
    isFallback w.fallbackPrefix = true := by
  obtain ⟨root, hw⟩ := isConfig_of_ofSetting h
  obtain ⟨ms, -, hidentifiers⟩ := hw.identifiers
  exact hidentifiers.letter

theorem string?_of_narrowed? {w : WideConfig} {c : Config} (h : w.narrowed? = some c) :
    Text.WideText.string? w.rendering.podLinkTemplate = some c.rendering.podLinkTemplate ∧
      Text.WideText.string? w.fallbackPrefix = some c.fallbackPrefix := by
  unfold WideConfig.narrowed? ConfigOf.mapTexts? at h
  simp only [Option.bind_eq_bind, Option.bind_eq_some_iff] at h
  obtain ⟨_, -, _, -, _, -, _, htemplate, _, -, _, -, _, -, h⟩ := h
  split at h
  · simp only [Option.bind_eq_some_iff] at h
    obtain ⟨_, -, _, -, s, hs, ⟨⟩⟩ := h
    exact ⟨htemplate, hs⟩
  · simp only [Option.bind_eq_some_iff] at h
    obtain ⟨_, -, _, -, s, hs, ⟨⟩⟩ := h
    exact ⟨htemplate, hs⟩

/-- A configuration of plain texts that is accepted has a letter to fall back on. -/
theorem exists_letter_of_ofSetting {s : Setting} {w : WideConfig} {c : Config}
    (hw : ofSetting s = .ok w) (hc : w.narrowed? = some c) :
    ∃ d ∈ c.fallbackPrefix.toList, Identifier.isLetter d = true := by
  have hfallback := isFallback_of_ofSetting hw
  have hstring := (string?_of_narrowed? hc).2
  unfold isFallback at hfallback
  split at hfallback
  · rename_i d rest hfirst
    cases d with
    | char d =>
      rw [Text.WideText.string?, Option.map_eq_some_iff] at hstring
      obtain ⟨t, ht, hstring⟩ := hstring
      refine ⟨d, ?_, hfallback⟩
      rw [← hstring, String.toList_ofList]
      exact Text.WideText.mem_chars? ht (hfirst ▸ List.mem_cons_self)
    | half n => cases hfallback
  · cases hfallback

end Config

/-! ## What is handed out -/

/-- Identifiers handed out between two moments: no two the same, none in use before, and all in
use from then on. -/
structure Handed (before after : List String) (vs : List Value) : Prop where
  nodup : vs.Nodup
  new : ∀ v ∈ vs, ∃ x, v = .text x ∧ x ∉ before ∧ x ∈ after
  kept : before ⊆ after

namespace Handed

variable {before between after : List String} {vs ws : List Value}

theorem nil (issued : List String) : Handed issued issued [] :=
  ⟨List.nodup_nil, nofun, List.Subset.refl issued⟩

theorem append (h : Handed before between vs) (h' : Handed between after ws) :
    Handed before after (vs ++ ws) := by
  refine ⟨List.nodup_append.2 ⟨h.nodup, h'.nodup, ?_⟩, fun v hv => ?_,
    List.Subset.trans h.kept h'.kept⟩
  · -- what came later was not in use when the first ones were handed out
    rintro v hv w hw rfl
    obtain ⟨x, rfl, -, hx⟩ := h.new v hv
    obtain ⟨y, heq, hy, -⟩ := h'.new _ hw
    exact hy (Value.text.inj heq ▸ hx)
  · rcases List.mem_append.1 hv with hv | hv
    · obtain ⟨x, rfl, hnew, hused⟩ := h.new v hv
      exact ⟨x, rfl, hnew, h'.kept hused⟩
    · obtain ⟨x, rfl, hnew, hused⟩ := h'.new v hv
      exact ⟨x, rfl, fun hx => hnew (h.kept hx), hused⟩

theorem allocate (ids : Identifiers) (s : String) :
    Handed ids.issued (ids.allocate s).2.issued [.text (ids.fresh s)] := by
  refine ⟨List.pairwise_singleton _ _, fun v hv => ?_, fun x hx => ?_⟩
  · rw [List.mem_singleton.1 hv]
    exact ⟨_, rfl, ids.fresh_notMem s, Identifiers.mem_issued_allocate.2 (.inr rfl)⟩
  · exact Identifiers.mem_issued_allocate.2 (.inl hx)

theorem of_seed {seed : List String} {fallback : String}
    (h : Handed (Identifiers.ofSeed seed fallback).issued after vs) : Handed seed after vs := by
  refine ⟨h.nodup, fun v hv => ?_, fun x hx => h.kept (Identifiers.mem_issued_ofSeed.2 hx)⟩
  obtain ⟨x, rfl, hnew, hused⟩ := h.new v hv
  exact ⟨x, rfl, fun hx => hnew (Identifiers.mem_issued_ofSeed.2 hx), hused⟩

end Handed

namespace Heading

theorem handed_tops (ids : Identifiers) {n : Node} (h : Slot.Empty Slot.all (pageSlots n)) :
    let found := anchorFound ids n
    let routes := anchorRoutes found.2 found.1
    Handed ids.issued routes.2.issued (anchors (tops routes.1)) := by
  intro found routes
  have hdistinct : Slot.Distinct routes.2 (pageSlots routes.1) :=
    distinct_anchorRoutes (distinct_anchorFound (Slot.Distinct.of_empty ids h))
  rw [← given_pageSlots_tops]
  refine ⟨hdistinct.nodup_given Slot.tops, fun v hv => ?_, ?_⟩
  · have hv := Slot.mem_given_all_iff.2 (.inl hv)
    obtain ⟨x, hx, rfl⟩ := hdistinct.issued v hv
    refine ⟨x, rfl, ?_, hx⟩
    rw [pageSlots_index_first] at hv
    exact Slot.notMem_of_mem_given_fill h hv
  · have hfound := Slot.subset_issued_fill (listed n) ids (pageSlots n)
    have hroutes := Slot.subset_issued_fill Slot.tops found.2 (pageSlots found.1)
    rw [fill_pageSlots_listed] at hfound
    rw [fill_pageSlots_tops] at hroutes
    exact List.Subset.trans hfound hroutes

theorem proper_anchorFound {ids : Identifiers} (h : ids.Proper) (n : Node) :
    (anchorFound ids n).2.Proper := by
  have hproper := Slot.proper_fill h (listed n) (pageSlots n)
  rwa [fill_pageSlots_listed] at hproper

theorem proper_anchorRoutes {ids : Identifiers} (h : ids.Proper) (n : Node) :
    (anchorRoutes ids n).2.Proper := by
  have hproper := Slot.proper_fill h Slot.tops (pageSlots n)
  rwa [fill_pageSlots_tops] at hproper

end Heading

namespace CommandLine

/-! ## One document -/

/-- The identifiers that fragments bring to a page: that of the document and the keys of its
routes. -/
def Fragments.identifiers (f : Fragments) : List Value :=
  .text f.moduleId :: Entries.keys f.routes

/-- A document is asked for its fragments, one after the other. -/
def Asked (d : Document) (f : Fragments) (d' : Document) : Prop :=
  ∃ d₁ d₂, Document.moduleId d = .ok f.moduleId d₁ ∧ Document.index d₁ = .ok f.index d₂ ∧
    Document.routes d₂ = .ok f.routes d'

section
variable {d d' : Document} {f : Fragments}

/-- The identifier and the index that a document gives are those that it makes, and the routes are
made where it has its index. -/
theorem asked_eq (hd : d.Untouched) (h : Asked d f d') :
    f.moduleId = d.identified.1 ∧ f.index = d.indexed.1 ∧
      Document.routes d.indexed.2 = .ok f.routes d' := by
  obtain ⟨id, s, rs⟩ := f
  obtain ⟨d₁, d₂, hid, hindex, hroutes⟩ := h
  rw [Document.moduleId_apply] at hid
  cases hid
  rw [Document.index_apply, Document.indexed_identified hd.settled] at hindex
  cases hindex
  exact ⟨rfl, rfl, hroutes⟩

/-- The identifier comes first, then what the index lists, then the routes. -/
theorem asked_ok (hd : d.Untouched) (h : Asked d f d') :
    let found := Heading.anchorFound (d.ids.allocate d.moduleName).2 d.tree
    let routes := Heading.anchorRoutes found.2 found.1
    f.moduleId = d.ids.fresh d.moduleName ∧
      Entries.keys f.routes = Heading.anchors (Heading.tops routes.1) ∧ d'.ids = routes.2 := by
  intro found routes
  obtain ⟨hid, -, hroutes⟩ := asked_eq hd h
  obtain ⟨-, htree, hids, hlog, hnone, hsetting⟩ := hd.indexed_frame
  obtain ⟨log, hgroup, rfl⟩ :=
    Document.routes_of_none hd.settled.indexed.labelled hnone hroutes
  rw [htree, hids] at hgroup
  refine ⟨hid.trans (Document.identified_of_none hd.moduleId).1, ?_, ?_⟩
  · have hdistinct := Slot.Distinct.of_empty (d.ids.allocate d.moduleName).2
      (Document.empty_pageSlots hd)
    exact Document.keys_group_page
      (Heading.distinct_anchorRoutes (Heading.distinct_anchorFound hdistinct))
      (Heading.filled_anchorRoutes _ _) hgroup
  · rw [Document.ids_routed, htree, hids]

/-- What a document hands out is new and each time another one. -/
theorem handed_asked (hd : d.Untouched) (h : Asked d f d') :
    Handed d.ids.issued d'.ids.issued f.identifiers := by
  obtain ⟨hid, hkeys, hids⟩ := asked_ok hd h
  have hfirst := Handed.allocate d.ids d.moduleName
  have hrest := Heading.handed_tops (d.ids.allocate d.moduleName).2 (Document.empty_pageSlots hd)
  rw [Fragments.identifiers, hid, hkeys, hids]
  exact hfirst.append hrest

theorem proper_asked (hd : d.Untouched) (hproper : d.ids.Proper) (h : Asked d f d') :
    d'.ids.Proper := by
  obtain ⟨-, -, hids⟩ := asked_ok hd h
  rw [hids]
  exact Heading.proper_anchorRoutes (Heading.proper_anchorFound (hproper.allocate _) _) _

end

/-! ## One document after the other -/

theorem ask_ok {α : Type} {d d' : Document} {action : Document.Action α} {a : α}
    {log log' : List Notice} (h : Job.ask d action log = .ok (a, d') log') :
    action { d with log := log } = .ok a d' ∧ d'.log = log' := by
  unfold Job.ask EStateM.run at h
  split at h
  · rename_i heq
    cases h
    exact ⟨heq, rfl⟩
  · cases h

theorem prepare_ok [Html.Highlighter] {c : Config} {path : String} {seed : List String} {p : Page}
    {d : Document} {log log' : List Notice} (h : Job.prepare c path seed p log = .ok d log') :
    Document.ofPage c (some path) seed p = .ok d := by
  unfold Job.prepare at h
  split at h
  · rename_i heq
    cases h
    exact heq
  · cases h

section
variable {α : Type} {read : α → Job (Page × String)} {c : Config} {seed : List String} {a : α}
  {rest : List α} {log log' : List Notice} {fs : List Fragments}

/-- Fragments are made of one document after the other, each starting with what the one before
left in use. -/
theorem fragments_cons_ok [Html.Highlighter]
    (h : fragments read c seed (a :: rest) log = .ok fs log') :
    ∃ p module log₁ d log₂ f d' fs', read a log = .ok (p, module) log₁ ∧
      Document.ofPage c (some module) seed p = .ok d ∧ Asked { d with log := log₂ } f d' ∧
      fragments read c d'.ids.issued rest d'.log = .ok fs' log' ∧ fs = f :: fs' := by
  rw [fragments] at h
  obtain ⟨⟨p, module⟩, log₁, hread, h⟩ := bind_ok h
  obtain ⟨d, log₂, hprepare, h⟩ := bind_ok h
  obtain ⟨⟨id, d₁⟩, log₃, hid, h⟩ := bind_ok h
  obtain ⟨⟨index, d₂⟩, log₄, hindex, h⟩ := bind_ok h
  obtain ⟨⟨rs, d₃⟩, log₅, hroutes, h⟩ := bind_ok h
  obtain ⟨fs', log₆, hrest, h⟩ := bind_ok h
  cases h
  obtain ⟨hmade, rfl⟩ := ask_ok hid
  obtain ⟨hmade', rfl⟩ := ask_ok hindex
  obtain ⟨hmade'', rfl⟩ := ask_ok hroutes
  exact ⟨p, module, log₁, d, log₂, ⟨id, index, rs⟩, d₃, fs', hread, prepare_ok hprepare,
    ⟨d₁, d₂, hmade, hmade', hmade''⟩, hrest, rfl⟩

/-- What is read is the page of a tree without anchors. -/
def ReadsNoAnchor (read : α → Job (Page × String)) (a : α) : Prop :=
  ∀ log p module log', read a log = .ok (p, module) log' →
    ∃ n, Page.ofNode? n = some p ∧ Anchor.isAbsent n = true

theorem untouched_of_read [Html.Highlighter] (hread : ReadsNoAnchor read a) {p : Page}
    {module : String} {log₁ : List Notice} (h : read a log = .ok (p, module) log₁) {d : Document}
    (hd : Document.ofPage c (some module) seed p = .ok d) :
    d.Untouched ∧ d.ids = Identifiers.ofSeed seed c.fallbackPrefix := by
  obtain ⟨n, hn, habsent⟩ := hread log p module log₁ h
  cases n with
  | text s => cases hn
  | element name as cs =>
    cases hn
    exact ⟨Document.untouched_ofPage habsent hd, Document.ids_ofPage hd⟩

/-- Where the identifiers in use are well-formed, what all the documents hand out is new, and
well-formed too. -/
theorem handed_fragments [Html.Highlighter] {items : List α}
    (hletter : ∃ x ∈ c.fallbackPrefix.toList, Identifier.isLetter x = true)
    (hread : ∀ a ∈ items, ReadsNoAnchor read a)
    (hseed : ∀ x ∈ seed, Identifier.isWellFormed x = true)
    (h : fragments read c seed items log = .ok fs log') :
    ∃ after, Handed seed after (fs.flatMap Fragments.identifiers) ∧
      ∀ x ∈ after, Identifier.isWellFormed x = true := by
  induction items generalizing seed log fs with
  | nil =>
    cases h
    exact ⟨seed, Handed.nil seed, hseed⟩
  | cons a rest ih =>
    obtain ⟨p, module, log₁, d, log₂, f, d', fs', hp, hd, hasked, hrest, rfl⟩ := fragments_cons_ok h
    obtain ⟨huntouched, hids⟩ := untouched_of_read (hread a List.mem_cons_self) hp hd
    have huntouched : Document.Untouched { d with log := log₂ } :=
      ⟨huntouched.clean, huntouched.moduleId, huntouched.routes, huntouched.index⟩
    have hproper : d.ids.Proper := hids ▸ Identifiers.Proper.ofSeed hletter hseed
    have hfirst := handed_asked huntouched hasked
    have hwell := (proper_asked huntouched hproper hasked).issued
    rw [hids] at hfirst
    obtain ⟨after, hlast, hafter⟩ := ih (fun b hb => hread b (List.mem_cons_of_mem a hb)) hwell hrest
    exact ⟨after, hfirst.of_seed.append hlast, hafter⟩

theorem length_fragments [Html.Highlighter] {items : List α}
    (h : fragments read c seed items log = .ok fs log') :
    fs.length = items.length := by
  induction items generalizing seed log fs with
  | nil =>
    cases h
    rfl
  | cons a rest ih =>
    obtain ⟨_, _, _, _, _, _, _, _, -, -, -, hrest, rfl⟩ := fragments_cons_ok h
    rw [List.length_cons, List.length_cons, ih hrest]

end

/-- Trees without anchors that are put on one web page, under an accepted configuration: every tree
has its fragments, and of the identifiers of all documents and all routes no two are the same, and
each is a letter followed by letters, digits, hyphens and underscores. -/
theorem identifiers_of_fragments [Html.Highlighter] {α : Type} {read : α → Job (Page × String)}
    {items : List α} {s : Setting} {w : WideConfig} {c : Config} {log log' : List Notice}
    {fs : List Fragments} (hw : Config.ofSetting s = .ok w) (hc : w.narrowed? = some c)
    (hread : ∀ a ∈ items, ReadsNoAnchor read a) (h : fragments read c [] items log = .ok fs log') :
    fs.length = items.length ∧ (fs.flatMap Fragments.identifiers).Nodup ∧
      ∀ v ∈ fs.flatMap Fragments.identifiers,
        ∃ x, v = .text x ∧ Identifier.isWellFormed x = true := by
  have hletter := Config.exists_letter_of_ofSetting hw hc
  have hseed : ∀ x ∈ ([] : List String), Identifier.isWellFormed x = true :=
    List.forall_mem_nil _
  obtain ⟨after, hhanded, hafter⟩ := handed_fragments hletter hread hseed h
  refine ⟨length_fragments h, hhanded.nodup, fun v hv => ?_⟩
  obtain ⟨x, rfl, -, hx⟩ := hhanded.new v hv
  exact ⟨x, rfl, hafter x hx⟩

theorem readsNoAnchor_openTree {n : Node} (h : Anchor.isAbsent n = true) (module : String) :
    ReadsNoAnchor openTree (n, module) := by
  intro log p m log' hp
  obtain ⟨hn, -, -⟩ := openTree_ok_iff.1 hp
  exact ⟨n, hn, h⟩

/-- Two trees with a route of one name, on one web page. -/
theorem identifiers_of_two_trees :
    let tree := Node.element "Document" [] [.element "head3" [] [.text "GET /a"]]
    let items := [(tree, "lib/A.pm"), (tree, "lib/A.pm")]
    ∃ w c log fs, Config.ofSetting (.mapping []) = .ok w ∧ w.narrowed? = some c ∧
      fragments openTree c [] items [] = .ok fs log ∧
      (fs.flatMap Fragments.identifiers).length = 4 ∧ (fs.flatMap Fragments.identifiers).Nodup := by
  intro tree items
  have habsent : Anchor.isAbsent tree = true := by decide
  have hread : ∀ a ∈ items, ReadsNoAnchor openTree a := by
    intro a ha
    simp only [items, List.mem_cons, List.not_mem_nil, or_false, or_self] at ha
    rw [ha]
    exact readsNoAnchor_openTree habsent "lib/A.pm"
  have hw : Config.ofSetting (.mapping []) = .ok Config.base := rfl
  have hc : Config.base.narrowed? = some Config.default := by decide +kernel
  have hlength : (match fragments openTree Config.default [] items [] with
      | .ok fs _ => (fs.flatMap Fragments.identifiers).length == 4
      | .error .. => false) = true := by decide +kernel
  cases h : fragments openTree Config.default [] items [] with
  | error f log =>
    rw [h] at hlength
    cases hlength
  | ok fs log =>
    rw [h] at hlength
    obtain ⟨-, hnodup, -⟩ := identifiers_of_fragments hw hc hread h
    exact ⟨_, _, log, fs, hw, hc, h, eq_of_beq hlength, hnodup⟩

end CommandLine
end RouteDocs
