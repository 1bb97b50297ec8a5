import RouteDocs.Html.PlainHighlighter
import RouteDocs.Proofs.Session.Holders

/-!
# Identifiers over the life of a document

A document is edited, rebuilt and asked for things, in any order, and some of
what it is asked for fails. Edits move blocks about and bring new ones, a rebuild
forgets what was made, and only accesses hand out identifiers. So whatever
happens, the ledger of a document grows: an anchor stays with its heading, also
when the heading is taken off the page, and no identifier is ever given twice.

Results:
* `growth_step`, `growth_after`: one event, and any row of them, makes the ledger grow.
* `identifiers_stay`: what has been given stays where it is, no two have the same, and in use
  are the seed and what has been given.
-/
namespace RouteDocs.Document

open Ledger (Grows New)

/-- Something that happens to a document. -/
inductive Event where
  | insert (position : Int) (n : Node)
  | delete (position : Int)
  | rebuild
  | ask (a : Access)

/-- An event that brings no anchor. -/
def Event.isClean : Event → Bool
  | .insert _ n => Anchor.isAbsent n
  | .delete _ | .rebuild | .ask _ => true

/-- The document after an event. A deletion where there is no block changes nothing. -/
def step (d : Document) : Event → Document
  | .insert position n => d.withPage (d.draft.page.insert position n)
  | .delete position =>
    match d.draft.page.delete? position with
    | some p => d.withPage p
    | none => d
  | .rebuild => d.rebuild
  | .ask a => left (ask a) d

def after (d : Document) (events : List Event) : Document :=
  events.foldl step d

theorem after_append (d : Document) (before later : List Event) :
    d.after (before ++ later) = (d.after before).after later :=
  List.foldl_append

/-! ## Edits -/

section
variable {d : Document}

/-- An edit hands out nothing if it keeps every block and brings blocks without anchors only. -/
theorem growth_withPage {p : Page} (hlabels : p.WellLabelled) (hname : p.name = d.draft.page.name)
    (hattributes : p.attributes = d.draft.page.attributes)
    (hold : ∀ l n, d.draft.page.node? l = some n → p.node? l = some n)
    (hnew : ∀ l n, d.draft.page.node? l = none → p.node? l = some n → Anchor.isAbsent n = true) :
    Growth d (d.withPage p) := by
  have hpage : (d.withPage p).entry .page = d.entry .page := by
    rw [entry_page, entry_page, withPage, hname, hattributes]
  refine ⟨Ledger.grows_of_held_eq rfl ?_ ?_, hlabels⟩
  · intro a e hentry
    cases a with
    | module => exact hentry
    | page => exact hpage.trans hentry
    | heading l path =>
      obtain ⟨n, hn, hentry⟩ := Option.bind_eq_some_iff.1 hentry
      exact Option.bind_eq_some_iff.2 ⟨n, hold l n hn, hentry⟩
  · intro a
    cases a with
    | module => rfl
    | page => exact Ledger.held_congr hpage
    | heading l path =>
      show (d.withPage p).held (.heading l path) = d.held (.heading l path)
      rw [held_heading, held_heading, withPage]
      cases hn : d.draft.page.node? l with
      | some n => rw [hold l n hn]
      | none =>
        cases hn' : p.node? l with
        | none => rfl
        | some n => exact Node.held_of_isAbsent (hnew l n hn hn') path

theorem growth_insert (hlabels : d.draft.page.WellLabelled) {n : Node}
    (hn : Anchor.isAbsent n = true) (position : Int) :
    Growth d (d.withPage (d.draft.page.insert position n)) := by
  unfold Page.insert
  have hafter := Page.wellLabelled_insertAt hlabels
    (Page.fromEnd d.draft.page.blocks.length position) [n]
  refine growth_withPage hafter rfl rfl ?_ ?_
  · intro l m hm
    exact Page.node?_insertAt hlabels hm _ _
  · intro l m hnone hm
    rw [Page.node?_eq_some_iff hafter, (Page.perm_insertAt ..).mem_iff] at hm
    rcases List.mem_append.1 hm with hm | hm
    · obtain rfl : m = n := List.mem_singleton.1 (Page.node_mem_of_mem_label hm)
      exact hn
    · rw [← Page.node?_eq_some_iff hlabels, hnone] at hm
      cases hm

theorem growth_delete (hlabels : d.draft.page.WellLabelled) {position : Int} {p : Page}
    (h : d.draft.page.delete? position = some p) : Growth d (d.withPage p) := by
  unfold Page.delete? at h
  split at h
  · cases h
  have hnode := Page.node?_removeAt? hlabels h
  have hafter := Page.wellLabelled_removeAt? hlabels h
  obtain ⟨b, -, rfl⟩ := Page.eq_of_removeAt? h
  refine growth_withPage hafter rfl rfl ?_ ?_
  · intro l n hn
    exact (hnode l).trans hn
  · intro l n hnone hn
    rw [hnode l, hnone] at hn
    cases hn

/-! ## Events -/

/-- Every event makes the ledger grow. -/
theorem growth_step (hlabels : d.draft.page.WellLabelled) {e : Event} (he : e.isClean = true) :
    Growth d (d.step e) := by
  cases e with
  | insert position n => exact growth_insert hlabels he position
  | delete position =>
    simp only [step]
    cases hp : d.draft.page.delete? position with
    | some p => exact growth_delete hlabels hp
    | none => exact ⟨Grows.refl _, hlabels⟩
  | rebuild => exact ⟨Grows.refl _, hlabels⟩
  | ask a => exact growth_ask hlabels a

/-- So does any row of events. -/
theorem growth_after (hlabels : d.draft.page.WellLabelled) {events : List Event}
    (h : ∀ e ∈ events, e.isClean = true) : Growth d (d.after events) := by
  induction events generalizing d with
  | nil => exact ⟨Grows.refl _, hlabels⟩
  | cons e rest ih =>
    obtain ⟨he, hrest⟩ := List.forall_mem_cons.1 h
    have hfirst := growth_step hlabels he
    exact hfirst.trans (ih hfirst.labelled hrest)

/-- Nothing is held on a page without anchors. -/
theorem held_of_untouched (hd : d.Untouched) (a : Holder) : d.held a = none := by
  cases a with
  | module =>
    show Option.map _ d.madeModuleId = none
    rw [hd.moduleId]
    rfl
  | page =>
    show (d.entry .page).bind _ = none
    rw [entry]
    split
    · exact hd.clean.root
    · rfl
  | heading l path =>
    rw [held_heading]
    cases hn : d.draft.page.node? l with
    | none => rfl
    | some n => exact Node.held_of_isAbsent (hd.clean.isAbsent_node? hn) path

/-- The life of a document that is made of a tree without anchors, while trees without anchors are
inserted, blocks are deleted, it is rebuilt and asked for its routes, its index and its identifier,
whether they can be made or not: a heading stays a heading with its text and keeps the anchor that it
has once been given, also aside, and the module keeps its identifier; what they have are texts, no
two the same and none in the seed; and the identifiers in use are the seed and what they have. -/
theorem identifiers_stay [Html.Highlighter] {c : Config} {path : Option String}
    {seed : List String} {name : String} {as : Attributes} {cs : List Node}
    (habsent : Anchor.isAbsent (.element name as cs) = true)
    (hd : ofPage c path seed (Page.ofElement name as cs) = .ok d) {before later : List Event}
    (hclean : ∀ e ∈ before ++ later, e.isClean = true) :
    let d₁ := d.after before
    let d₂ := d.after (before ++ later)
    (∀ a title v, d₁.entry a = some (title, v) → ∃ w, d₂.entry a = some (title, w)) ∧
    (∀ a v, d₁.held a = some v → d₂.held a = some v) ∧
    (∀ a v, d₂.held a = some v → ∃ x, v = .text x ∧ x ∉ seed) ∧
    (∀ a b v, d₂.held a = some v → d₂.held b = some v → a = b) ∧
    ∀ x, x ∈ d₂.ids.issued ↔ x ∈ seed ∨ ∃ a, d₂.held a = some (.text x) := by
  intro d₁ d₂
  have huntouched := untouched_ofPage habsent hd
  have hbefore := growth_after huntouched.clean.labelled fun e he =>
    hclean e (List.mem_append_left _ he)
  have hlater : Growth d₁ d₂ := by
    have hgrowth := growth_after hbefore.labelled fun e he => hclean e (List.mem_append_right _ he)
    rwa [← after_append] at hgrowth
  have hall := (hbefore.trans hlater).ledger
  have hseed : ∀ x, x ∈ d.ledger.ids.issued ↔ x ∈ seed := fun x => by
    show x ∈ d.ids.issued ↔ _
    rw [ids_ofPage hd, Identifiers.mem_issued_ofSeed]
  have hnew : ∀ {a x}, New d.ledger d₂.ledger a x ↔ d₂.held a = some (.text x) := fun {a x} =>
    ⟨New.after, fun h => ⟨held_of_untouched huntouched a, h⟩⟩
  have hgiven : ∀ {a v}, d₂.held a = some v → ∃ x, v = .text x ∧ New d.ledger d₂.ledger a x := by
    intro a v hv
    rcases hall.kept a with heq | ⟨x, hx⟩
    · have hnone := heq.trans (held_of_untouched huntouched a)
      cases hv.symm.trans hnone
    · exact ⟨x, Option.some.inj (hv.symm.trans hx.after), hx⟩
  refine ⟨fun a title v h => hlater.ledger.stays h, fun a v h => hlater.ledger.held_of_some h,
    ?_, ?_, ?_⟩
  · intro a v hv
    obtain ⟨x, rfl, hx⟩ := hgiven hv
    exact ⟨x, rfl, fun hmem => hall.unused hx ((hseed x).2 hmem)⟩
  · intro a b v ha hb
    obtain ⟨x, rfl, hx⟩ := hgiven ha
    exact hall.apart hx (hnew.2 hb)
  · intro x
    rw [← hseed x]
    simp only [← hnew]
    exact hall.issued

/-- A page whose routes cannot be made gives its heading an anchor all the same, which the heading
keeps when it is deleted; a heading of the same text that comes later gets another. -/
theorem identifiers_stay_of_deleted :
    let cs : List Node := [.element "head3" [] [.text "GET /a"], .element "Z" [] []]
    let before : List Event :=
      [.ask .routes, .insert 0 (.element "head3" [] [.text "pod"]), .ask .index]
    let later : List Event :=
      [.delete 1, .rebuild, .insert 9 (.element "head3" [] [.text "GET /a"]), .ask .index]
    ∃ d,
      Anchor.isAbsent (.element "Document" [] cs) = true ∧
      ofPage Config.default none ["get-a"] (Page.ofElement "Document" [] cs) = .ok d ∧
      (∀ e ∈ before ++ later, e.isClean = true) ∧
      (∃ f d', routes d = .error f d') ∧
      (d.after (before ++ later)).held (.heading 0 []) = some (.text "get-a0") ∧
      (∀ x, x ∈ (d.after (before ++ later)).ids.issued ↔
        x ∈ ["get-a"] ∨ ∃ a, (d.after (before ++ later)).held a = some (.text x)) ∧
      (d.after (before ++ later)).ids.issued = ["get-a", "get-a0", "pod", "pod0", "get-a1"] := by
  intro cs before later
  have hruns : ((ofPage Config.default none ["get-a"] (Page.ofElement "Document" [] cs)).toOption.any
      fun d => (routes.run' d).isNone &&
        ((d.after before).held (.heading 0 [])).any (Value.sameKey (.text "get-a0")) &&
        (d.after (before ++ later)).ids.issued == ["get-a", "get-a0", "pod", "pod0", "get-a1"]) =
      true := by
    decide +kernel
  cases hd : ofPage Config.default none ["get-a"] (Page.ofElement "Document" [] cs) with
  | error e => rw [hd] at hruns; cases hruns
  | ok d =>
    rw [hd] at hruns
    obtain ⟨hmade, hissued⟩ := Bool.and_eq_true_iff.1 hruns
    obtain ⟨hfails, hheld⟩ := Bool.and_eq_true_iff.1 hmade
    have habsent : Anchor.isAbsent (.element "Document" [] cs) = true := by decide +kernel
    have hclean : ∀ e ∈ before ++ later, e.isClean = true := by decide +kernel
    obtain ⟨-, hkept, htexts, -, hiff⟩ := identifiers_stay habsent hd hclean
    have hroutes : ∃ f d', routes d = .error f d' := by
      cases h : routes d with
      | error f d' => exact ⟨f, d', rfl⟩
      | ok rs d' =>
        delta EStateM.run' EStateM.run at hfails
        rw [h] at hfails
        cases hfails
    have hgiven : (d.after before).held (.heading 0 []) = some (.text "get-a0") := by
      obtain ⟨hsome, hsame⟩ := (Option.any_eq_true_iff_get _ _).1 hheld
      obtain ⟨v, hv⟩ := Option.isSome_iff_exists.1 hsome
      obtain ⟨x, rfl, -⟩ := htexts _ _ (hkept _ _ hv)
      simp only [hv, Option.get_some, sameKey_text, beq_iff_eq] at hsame
      rw [hv, hsame]
    exact ⟨d, habsent, rfl, hclean, hroutes, hkept _ _ hgiven, hiff, eq_of_beq hissued⟩

end
end RouteDocs.Document
