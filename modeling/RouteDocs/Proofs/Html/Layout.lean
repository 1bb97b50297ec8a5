import RouteDocs.Proofs.DefinitionList.Terms
import RouteDocs.Proofs.Html.Refusal
import RouteDocs.Proofs.Html.Render

/-!
# Layouts

What an element is shown as is a row of pieces: text of its own, and the nodes
within it that it is shown by. A definition list is shown by the children of
its terms and by their definitions, an element of an unknown kind by its first
child, most others by all of their children.

Results:
* `render_element`: an element is shown by performing its layout.
* `forall_layout`: what holds of every piece that can be built holds of every piece of a layout.
* `layout_unshowable`, `stuck_notMem_layout`: an element that cannot be shown is stuck at once, and
  no other element is.
-/
namespace RouteDocs.Html

open DefinitionList (marker? isContent isContent_iff preamble termPairs)

/-- Whether elements with a name are shown by their first child. -/
def isForeign (name : String) : Bool :=
  match Kind.ofName? name with
  | some .term | some .directive | some .data | none => true
  | _ => false

/-- An element that cannot be shown: by its first child, and it has none. -/
def isUnshowable : Node → Bool
  | .element name _ [] => isForeign name
  | _ => false

/-- A node within an element, and the elements between the two, outermost first. -/
structure Visit where
  above : List Node
  node : Node

/-- A piece of what an element is shown as. -/
inductive Piece where
  /-- Text of the element's own, if it can be made. -/
  | own (s : Except Fault String)
  | notice (n : Notice)
  | node (v : Visit)
  /-- There is nothing to show the element by. -/
  | stuck (name : String)

namespace Renderer

/-! ## Layouts -/

/-- Nodes shown one after the other, all of them below the same elements. -/
def shownBelow (above ns : List Node) : List Piece :=
  ns.map fun n => .node ⟨above, n⟩

def tagged (tag : String) (html : Except Fault (Option Value)) (as : Attributes)
    (inner : List Piece) : List Piece :=
  .own (html >>= openingTag tag) :: .own (.ok (innerLineFeed as)) ::
    (inner ++ [.own (.ok (innerLineFeed as)), .own (.ok (closingTag tag))])

def taggedOwn (tag : String) (as : Attributes) (inner : List Piece) : List Piece :=
  tagged tag (.ok (htmlAttributes as)) as inner

def onLines (inner : List Piece) : List Piece :=
  .own (.ok "\n") :: (inner ++ [.own (.ok "\n")])

def definitionPieces (ns : List Node) : List Piece :=
  shownBelow [] ns ++ [.own (.ok "</dd>")]

/-- A term and its definition. Of the term only the children are shown. -/
def termPieces (p : TermPair) : List Piece :=
  taggedOwn "dt" p.attributes (shownBelow [p.marker] p.label) ++
    .own (.ok "<dd>") :: definitionPieces p.definition

def linkHtml (r : Renderer) (as : Attributes) : Except Fault (Option Value) := do
  let address ← r.linkAddress as
  let html ← linkAttributes as address
  return some html

/-- What an element is shown as. -/
def layout (r : Renderer) (name : String) (as : Attributes) (cs : List Node) : List Piece :=
  match Kind.ofName? name with
  | some .document => shownBelow [] cs
  | some .head1 => onLines (taggedOwn "h1" as (shownBelow [] cs))
  | some .head2 => onLines (taggedOwn "h2" as (shownBelow [] cs))
  | some .head3 => onLines (taggedOwn "h3" as (shownBelow [] cs))
  | some .head4 => onLines (taggedOwn "h4" as (shownBelow [] cs))
  | some .paragraph => taggedOwn "p" as (shownBelow [] cs)
  | some .italic => taggedOwn "i" as (shownBelow [] cs)
  | some .bold => taggedOwn "b" as (shownBelow [] cs)
  | some .code => taggedOwn "code" as (shownBelow [] cs)
  | some .verbatim =>
    match r.config.verbatimLanguage.filter (· ≠ "") with
    | none => taggedOwn "pre" as (shownBelow [] cs)
    | some language => [.own (r.codeBlock language (Node.flattenAll cs))]
  | some .definitionList =>
    .own (openingTag "dl" (htmlAttributes as)) :: .own (.ok "\n") ::
      ((termPairs cs).flatMap termPieces ++ [.own (.ok "\n</dl>\n")])
  | some .link => tagged "a" (r.linkHtml as) as (shownBelow [] cs)
  | some .term | some .directive | some .data | none =>
    match cs with
    | [] => [.stuck name]
    | c :: _ => [.notice (.unrecognised name), .node ⟨[], c⟩]

/-! ## What all pieces satisfy -/

section
variable {P : Piece → Prop}

theorem forall_shownBelow (hnode : ∀ v, P (.node v)) (above ns : List Node) :
    ∀ p ∈ shownBelow above ns, P p :=
  List.forall_mem_map.2 fun _ _ => hnode _

theorem forall_tagged {tag : String} {html : Except Fault (Option Value)} {as : Attributes}
    {inner : List Piece} (hfixed : ∀ s, P (.own (.ok s))) (hopening : P (.own (html >>= openingTag tag)))
    (hinner : ∀ p ∈ inner, P p) : ∀ p ∈ tagged tag html as inner, P p := by
  simp only [tagged, List.forall_mem_cons, List.forall_mem_append]
  exact ⟨hopening, hfixed _, hinner, hfixed _, hfixed _, nofun⟩

theorem forall_onLines {inner : List Piece} (hfixed : ∀ s, P (.own (.ok s)))
    (hinner : ∀ p ∈ inner, P p) : ∀ p ∈ onLines inner, P p := by
  simp only [onLines, List.forall_mem_cons, List.forall_mem_append]
  exact ⟨hfixed _, hinner, hfixed _, nofun⟩

theorem forall_termPieces {t : TermPair} (hfixed : ∀ s, P (.own (.ok s))) (hnode : ∀ v, P (.node v))
    (hopening : P (.own (openingTag "dt" (htmlAttributes t.attributes)))) :
    ∀ p ∈ termPieces t, P p := by
  simp only [termPieces, definitionPieces, List.forall_mem_cons, List.forall_mem_append]
  exact ⟨forall_tagged hfixed hopening (forall_shownBelow hnode _ _), hfixed _,
    forall_shownBelow hnode _ _, hfixed _, nofun⟩

/-- What holds of each sort of piece holds of all pieces of a layout. -/
theorem forall_layout {r : Renderer} {name : String} {as : Attributes} {cs : List Node}
    (hfixed : ∀ s, P (.own (.ok s))) (hnotice : ∀ n, P (.notice n)) (hnode : ∀ v, P (.node v))
    (hopening : ∀ tag, P (.own (openingTag tag (htmlAttributes as))))
    (hterm : ∀ t ∈ termPairs cs, P (.own (openingTag "dt" (htmlAttributes t.attributes))))
    (hlink : P (.own (r.linkHtml as >>= openingTag "a")))
    (hcode : ∀ language, r.config.verbatimLanguage = some language →
      P (.own (r.codeBlock language (Node.flattenAll cs))))
    (hstuck : isUnshowable (.element name as cs) = true → P (.stuck name)) :
    ∀ p ∈ r.layout name as cs, P p := by
  have hchildren := forall_shownBelow hnode [] cs
  have hown : ∀ tag, ∀ p ∈ taggedOwn tag as (shownBelow [] cs), P p := fun tag =>
    forall_tagged hfixed (hopening tag) hchildren
  have hforeign : isForeign name = true → ∀ p ∈ (match cs with
      | [] => [.stuck name]
      | c :: _ => [.notice (.unrecognised name), .node ⟨[], c⟩] : List Piece), P p := by
    intro h
    cases cs with
    | nil => exact List.forall_mem_singleton.2 (hstuck h)
    | cons c rest =>
      exact List.forall_mem_cons.2 ⟨hnotice _, List.forall_mem_singleton.2 (hnode _)⟩
  rw [isForeign.eq_def] at hforeign
  rw [layout.eq_def]
  cases hk : Kind.ofName? name with
  | none => exact hforeign (by rw [hk])
  | some k =>
    rw [hk] at hforeign
    cases k with
    | term | directive | data => exact hforeign rfl
    | document => exact hchildren
    | head1 | head2 | head3 | head4 => exact forall_onLines hfixed (hown _)
    | paragraph | italic | bold | code => exact hown _
    | link => exact forall_tagged hfixed hlink hchildren
    | verbatim =>
      dsimp only
      cases hl : r.config.verbatimLanguage.filter (· ≠ "") with
      | none => exact hown _
      | some language =>
        exact List.forall_mem_singleton.2 (hcode _ (Option.filter_eq_some_iff.1 hl).1)
    | definitionList =>
      simp only [List.forall_mem_cons, List.forall_mem_append, List.forall_mem_flatMap]
      exact ⟨hopening _, hfixed _,
        fun t ht => forall_termPieces hfixed hnode (hterm t ht), hfixed _, nofun⟩

end

/-- An element of an unknown kind without children has nothing to be shown by. -/
theorem layout_unshowable (r : Renderer) {name : String} {as : Attributes} {cs : List Node}
    (h : isUnshowable (.element name as cs) = true) : r.layout name as cs = [.stuck name] := by
  cases cs with
  | cons c rest => cases h
  | nil =>
    rw [isUnshowable, isForeign.eq_def] at h
    rw [layout.eq_def]
    cases hk : Kind.ofName? name with
    | none => rfl
    | some k => cases k <;> simp_all

/-- Any other element has something to be shown by. -/
theorem stuck_notMem_layout (r : Renderer) {name : String} {as : Attributes} {cs : List Node}
    (h : isUnshowable (.element name as cs) = false) (other : String) :
    .stuck other ∉ r.layout name as cs := fun hmem =>
  forall_layout (P := fun p => p ≠ .stuck other) (fun _ => nofun) (fun _ => nofun) (fun _ => nofun)
    (fun _ => nofun) (fun _ _ => nofun) nofun (fun _ _ => nofun)
    (fun hstuck => absurd (hstuck.symm.trans h) nofun) _ hmem rfl

end Renderer

/-! ## Performing -/

/-- Pieces are made one after the other. `run` does what at most notes something, `around` tells the
names of the elements around the pieces, and `shown` shows the nodes. -/
def performWith {m : Type → Type} [Monad m] (run : {α : Type} → Rendered α → m α)
    (around : m (List String)) :
    (ps : List Piece) → (∀ v, .node v ∈ ps → m String) → m String
  | [], _ => return ""
  | .own s :: rest, shown => do
    let first ← run (quiet s)
    let others ← performWith run around rest fun v h =>
      shown v (List.mem_cons_of_mem _ h)
    return first ++ others
  | .notice n :: rest, shown => do
    run (note n)
    performWith run around rest fun v h => shown v (List.mem_cons_of_mem _ h)
  | .node v :: rest, shown => do
    let first ← shown v List.mem_cons_self
    let others ← performWith run around rest fun v h =>
      shown v (List.mem_cons_of_mem _ h)
    return first ++ others
  | .stuck name :: _, _ => do
    let trail ← around
    run (throw (.unrenderable name trail none))

namespace Renderer

/-- Pieces are made within the elements named. -/
def perform (r : Renderer) (trail : List String) (ps : List Piece) : Rendered String :=
  performWith id (pure trail) ps fun v _ => r.render trail v.node

section
variable (r : Renderer) (trail : List String) (rest : List Piece)

theorem perform_nil : r.perform trail [] = return "" :=
  rfl

theorem perform_own (s : Except Fault String) :
    r.perform trail (.own s :: rest) = do
      let first ← quiet s
      let others ← r.perform trail rest
      return first ++ others :=
  rfl

theorem perform_notice (n : Notice) :
    r.perform trail (.notice n :: rest) = note n >>= fun _ => r.perform trail rest :=
  rfl

theorem perform_node (v : Visit) :
    r.perform trail (.node v :: rest) = do
      let first ← r.render trail v.node
      let others ← r.perform trail rest
      return first ++ others :=
  rfl

theorem perform_stuck (name : String) :
    r.perform trail (.stuck name :: rest) = throw (.unrenderable name trail none) :=
  rfl

theorem perform_append (ps qs : List Piece) :
    r.perform trail (ps ++ qs) = do
      let first ← r.perform trail ps
      let others ← r.perform trail qs
      return first ++ others := by
  induction ps with
  | nil => simp only [List.nil_append, perform_nil, pure_bind, String.empty_append, bind_pure]
  | cons p rest ih =>
    cases p with
    | own s =>
      simp only [List.cons_append, perform_own, ih, bind_assoc, pure_bind, String.append_assoc]
    | notice n => simp only [List.cons_append, perform_notice, ih, bind_assoc]
    | node v =>
      simp only [List.cons_append, perform_node, ih, bind_assoc, pure_bind, String.append_assoc]
    | stuck name => rfl

theorem perform_shownBelow (above ns : List Node) :
    r.perform trail (shownBelow above ns) = r.renderAll trail ns := by
  induction ns with
  | nil => rw [renderAll]; rfl
  | cons n rest ih => rw [shownBelow, List.map_cons, perform_node, ← shownBelow, ih, renderAll]

theorem quiet_bind {α β : Type} (x : Except Fault α) (f : α → Except Fault β) :
    quiet (x >>= f) = quiet x >>= fun a => quiet (f a) := by
  cases x with
  | ok a => rfl
  | error e => rfl

theorem quiet_ok_eq {α : Type} (a : α) : (quiet (.ok a) : Rendered α) = pure a :=
  rfl

theorem perform_tagged (tag : String) (html : Except Fault (Option Value)) (as : Attributes)
    (inner : List Piece) :
    r.perform trail (tagged tag html as inner) =
      quiet html >>= fun value => wrap tag value as (r.perform trail inner) := by
  simp only [tagged, perform_own, perform_append, perform_nil, quiet_bind, quiet_ok_eq, wrap,
    bind_assoc, pure_bind, String.append_assoc, String.append_empty]

theorem perform_taggedOwn (tag : String) (as : Attributes) (inner : List Piece) :
    r.perform trail (taggedOwn tag as inner) =
      wrap tag (htmlAttributes as) as (r.perform trail inner) := by
  rw [taggedOwn, perform_tagged, quiet_ok_eq, pure_bind]

theorem perform_onLines (inner : List Piece) :
    r.perform trail (onLines inner) = do
      return "\n" ++ (← r.perform trail inner) ++ "\n" := by
  simp only [onLines, perform_own, perform_append, perform_nil, quiet_ok_eq, bind_assoc, pure_bind,
    String.append_assoc, String.append_empty]

/-- The children of a definition list from somewhere on: the definition that is open there, if one
is, and then the terms. -/
theorem perform_terms (opened : Bool) (ns : List Node) :
    r.perform trail ((if opened then definitionPieces (preamble ns) else []) ++
        (termPairs ns).flatMap termPieces) = r.renderTerms trail opened ns := by
  induction ns generalizing opened with
  | nil => cases opened <;> (rw [renderTerms]; rfl)
  | cons n rest ih =>
    have hopen := ih true
    have hshut := ih false
    rw [if_pos rfl] at hopen
    rw [if_neg Bool.false_ne_true, List.nil_append] at hshut
    cases hterm : n.isA .term with
    | true =>
      obtain ⟨as, cs, rfl⟩ := Node.isA_iff.1 hterm
      have hmarker : marker? (.element Kind.term.name as cs) = some (as, cs) := by simp [marker?]
      have hpreamble : preamble (.element Kind.term.name as cs :: rest) = [] := by
        rw [preamble, List.takeWhile_cons_of_neg (by simp [isContent, hmarker])]
      rw [renderTerms, if_pos rfl, termPairs, hmarker, hpreamble]
      simp only [List.flatMap_cons, termPieces, List.append_assoc, List.cons_append]
      rw [← preamble, perform_append, perform_append, perform_taggedOwn, perform_shownBelow, perform_own,
        hopen]
      cases opened with
      | false =>
        simp only [Bool.false_eq_true, if_false, perform_nil, pure_bind, quiet_ok_eq, bind_assoc,
          String.empty_append, String.append_assoc]
      | true =>
        simp only [if_true, definitionPieces, shownBelow, List.map_nil, List.nil_append, perform_own,
          perform_nil, pure_bind, quiet_ok_eq, bind_assoc, String.append_empty, String.append_assoc]
    | false =>
      have hcontent : isContent n = true := isContent_iff.2 hterm
      have hpreamble : preamble (n :: rest) = n :: preamble rest :=
        List.takeWhile_cons_of_pos hcontent
      have hpairs : termPairs (n :: rest) = termPairs rest :=
        DefinitionList.termPairs_append (List.forall_mem_singleton.2 hcontent) rest
      rw [renderTerms_cons_other r hterm, hpreamble, hpairs]
      cases opened with
      | false => exact hshut
      | true =>
        rw [if_pos rfl, if_pos rfl, ← hopen]
        rfl

end

/-- An element is shown by performing its layout. -/
theorem render_element (r : Renderer) (trail : List String) (name : String) (as : Attributes)
    (cs : List Node) :
    r.render trail (.element name as cs) =
      r.perform (trail ++ [name]) (r.layout name as cs) := by
  have hall := r.perform_shownBelow (trail ++ [name]) [] cs
  have hterms := r.perform_terms (trail ++ [name]) false cs
  rw [if_neg Bool.false_ne_true, List.nil_append] at hterms
  rw [render.eq_def, layout.eq_def]
  cases hk : Kind.ofName? name with
  | none =>
    simp only [hk]
    cases cs with
    | nil => rfl
    | cons c rest =>
      simp only [perform_notice, perform_node, perform_nil, pure_bind, String.append_empty, bind_pure]
  | some k =>
    cases k with
    | document =>
      simp only [hk]
      exact hall.symm
    | head1 | head2 | head3 | head4 =>
      simp only [hk, perform_onLines, perform_taggedOwn, hall]
    | paragraph | italic | bold | code =>
      simp only [hk, perform_taggedOwn, hall]
    | verbatim =>
      simp only [hk]
      cases r.config.verbatimLanguage.filter (· ≠ "") with
      | none => exact (hall ▸ r.perform_taggedOwn _ "pre" as (shownBelow [] cs)).symm
      | some language => simp only [perform_own, perform_nil, pure_bind, String.append_empty, bind_pure]
    | link =>
      simp only [hk, perform_tagged, hall, linkHtml, quiet_bind, bind_assoc]
      rfl
    | definitionList =>
      simp only [hk, perform_own, perform_append, perform_nil, hterms, quiet_ok_eq, bind_assoc,
        pure_bind, String.append_assoc, String.append_empty]
    | term | directive | data =>
      simp only [hk]
      cases cs with
      | nil => rfl
      | cons c rest =>
        simp only [perform_notice, perform_node, perform_nil, pure_bind, String.append_empty,
          bind_pure]

end Renderer
end RouteDocs.Html
