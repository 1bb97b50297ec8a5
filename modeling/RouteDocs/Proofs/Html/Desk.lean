import RouteDocs.Html.PlainHighlighter
import RouteDocs.Proofs.EveryElement
import RouteDocs.Proofs.Html.Markup
import RouteDocs.Proofs.Html.Shift

/-!
# A renderer at work

A renderer may be used for one tree after the other. While it works it keeps
the names of the elements that it is in: it adds the name of an element when it
enters it and takes it off when it leaves, whether or not what is in the
element could be shown.

Results:
* `renderOn_eq`: a renderer at work shows what a rendering within its elements shows, and is then
  in the same elements as before.
* `renderSeries_eq`: each of the trees that it shows comes out as with a new renderer.
* `render_default_error`: where the configuration is the default, only an element that cannot be
  shown makes a rendering fail, or a number that is too long.
* `render_fails_iff`: so a rendering fails exactly where the walk meets such an element.
-/
namespace RouteDocs.Html

open EStateM (Result)

/-- What a renderer has before it: the names of the elements that it is in, outermost first, and what
has been noted. -/
structure Desk where
  trail : List String
  log : List Notice

abbrev AtDesk (α : Type) := EStateM Fault Desk α

def Desk.empty : Desk := ⟨[], []⟩

namespace AtDesk

variable {α : Type}

/-- What at most notes something. -/
def lift (x : Rendered α) : AtDesk α := fun desk =>
  match x desk.log with
  | .ok a log => .ok a ⟨desk.trail, log⟩
  | .error f log => .error f ⟨desk.trail, log⟩

/-- The names of the elements that the renderer is in. -/
def around : AtDesk (List String) := do
  return (← get).trail

/-- Work in an element. The element is left at the end, also after a failure. -/
def within (name : String) (body : AtDesk α) : AtDesk α := do
  modify fun desk => ⟨desk.trail ++ [name], desk.log⟩
  try body
  finally modify fun desk => ⟨desk.trail.dropLast, desk.log⟩

end AtDesk

namespace Renderer

open AtDesk (lift around within)

/-- Show a tree at a desk. -/
def renderOn (r : Renderer) : Node → AtDesk String
  | .text s => lift (quiet (r.text s))
  | .element name as cs =>
    within name (performWith lift around (r.layout name as cs) fun v _ => renderOn r v.node)
termination_by n => sizeOf n
decreasing_by exact sizeOf_lt_of_mem_steps (mem_steps_of_mem_layout ‹_›) as

/-- Work in an element that fails or not leaves the renderer where it was. -/
theorem within_eq {α : Type} {name : String} {trail : List String} {log : List Notice}
    {body : AtDesk α} {x : Rendered α}
    (h : body ⟨trail ++ [name], log⟩ = lift x ⟨trail ++ [name], log⟩) :
    within name body ⟨trail, log⟩ = lift x ⟨trail, log⟩ := by
  have hbody : within name body ⟨trail, log⟩ =
      match body ⟨trail ++ [name], log⟩ with
      | .ok a desk => .ok a ⟨desk.trail.dropLast, desk.log⟩
      | .error f desk => .error f ⟨desk.trail.dropLast, desk.log⟩ := by
    simp only [within, tryFinally, tryFinally', bind, EStateM.bind, modify_apply, Functor.map,
      EStateM.map]
    cases body ⟨trail ++ [name], log⟩ <;> rfl
  rw [hbody, h, lift, lift]
  cases x log <;> (dsimp only; rw [List.dropLast_concat])

/-- Two parts shown one after the other. -/
theorem append_lift {trail : List String} {log : List Notice} {x y : AtDesk String}
    {x' y' : Rendered String} (hx : x ⟨trail, log⟩ = lift x' ⟨trail, log⟩)
    (hy : ∀ log, y ⟨trail, log⟩ = lift y' ⟨trail, log⟩) :
    (x >>= fun first => y >>= fun others => pure (first ++ others)) ⟨trail, log⟩ =
      lift (x' >>= fun first => y' >>= fun others => pure (first ++ others)) ⟨trail, log⟩ := by
  rw [lift] at hx ⊢
  cases hfirst : x' log with
  | error f log' =>
    rw [hfirst] at hx
    rw [bind_of_error hx, bind_of_error hfirst]
  | ok first log' =>
    rw [hfirst] at hx
    rw [bind_of_ok hx, bind_of_ok hfirst]
    have hrest := hy log'
    rw [lift] at hrest
    cases hothers : y' log' with
    | error f log'' =>
      rw [hothers] at hrest
      rw [bind_of_error hrest, bind_of_error hothers]
    | ok others log'' =>
      rw [hothers] at hrest
      rw [bind_of_ok hrest, bind_of_ok hothers]
      rfl

theorem performWith_lift {r : Renderer} {trail : List String} (ps : List Piece)
    (shown : ∀ v, .node v ∈ ps → AtDesk String)
    (hshown : ∀ v h log, shown v h ⟨trail, log⟩ = lift (r.render trail v.node) ⟨trail, log⟩)
    (log : List Notice) :
    performWith lift around ps shown ⟨trail, log⟩ = lift (r.perform trail ps) ⟨trail, log⟩ := by
  induction ps generalizing log with
  | nil => rfl
  | cons p rest ih =>
    replace ih := ih (fun v h => shown v (List.mem_cons_of_mem _ h))
      (fun v h => hshown v (List.mem_cons_of_mem _ h))
    cases p with
    | own s =>
      rw [performWith, perform_own]
      exact append_lift rfl ih
    | notice n =>
      rw [performWith, perform_notice]
      exact ih (log ++ [n])
    | node v =>
      rw [performWith, perform_node]
      exact append_lift (hshown v List.mem_cons_self log) ih
    | stuck name => rfl

/-- A renderer at work shows a tree as one within the elements that it is in, and stays in them. -/
theorem renderOn_eq (r : Renderer) (n : Node) (desk : Desk) :
    r.renderOn n desk = lift (r.render desk.trail n) desk := by
  induction n using walk_induction r generalizing desk with
  | text s => rw [renderOn, render]
  | element name as cs ih =>
    rw [renderOn, render_element]
    exact within_eq (performWith_lift _ _ (fun v hv log => ih v (mem_steps_of_mem_layout hv) _) _)

/-! ## One tree after the other -/

/-- What a renderer's work comes to. -/
def outcome : Result Fault Desk String → Except Fault String
  | .ok page _ => .ok page
  | .error f _ => .error f

/-- Show trees one after the other at the same desk, whether or not those before could be shown. -/
def renderSeries (r : Renderer) : List Node → Desk → List (Except Fault String)
  | [], _ => []
  | n :: rest, desk =>
    match r.renderOn n desk with
    | .ok page desk => .ok page :: renderSeries r rest desk
    | .error f desk => .error f :: renderSeries r rest desk

/-- Each of the trees comes out as if it were the first. -/
theorem renderSeries_eq (r : Renderer) (ns : List Node) (log : List Notice) :
    r.renderSeries ns ⟨[], log⟩ = ns.map fun n => outcome (r.renderOn n .empty) := by
  induction ns generalizing log with
  | nil => rfl
  | cons n rest ih =>
    have hlog := r.render_append [] [] n log []
    rw [List.append_nil, List.append_nil] at hlog
    rw [renderSeries, List.map_cons, renderOn_eq, renderOn_eq, lift, lift, hlog]
    dsimp only [Desk.empty]
    cases r.render [] n [] with
    | ok page log' => exact congrArg (_ :: ·) (ih _)
    | error f log' => exact congr (congrArg (.error · :: ·) f.beneath_nil) (ih _)

/-! ## The default configuration -/

/-- Whether the HTML attributes of an element, if it has any, are a mapping. -/
def mapsAttributes (_ : String) (as : Attributes) : Bool :=
  match htmlAttributes as with
  | none | some (.mapping _) => true
  | _ => false

section
variable {fallback : String} {name : String} {as : Attributes}

theorem mapsAttributes_iff :
    mapsAttributes name as = true ↔
      htmlAttributes as = none ∨ ∃ ms, htmlAttributes as = some (.mapping ms) := by
  rw [mapsAttributes]
  split <;> simp_all

/-- The causes for which an element may fail to be shown where the configuration is the default: one
cannot be shown at all, or a number in its attributes is too long. -/
def FailsPlainly (n : Node) (f : Fault) : Prop :=
  f.isStuck = true ∨ f = .tooManyDigits ∧ n.every Node.writable = false

theorem failsPlainly_tooLong {cs : List Node} (h : Node.writable name as = false) :
    FailsPlainly (.element name as cs) .tooManyDigits := by
  refine .inr ⟨rfl, Bool.eq_false_iff.2 fun hall => ?_⟩
  rw [(Node.every_element.1 hall).1] at h
  cases h

/-- What goes wrong within an element goes wrong with it. -/
theorem FailsPlainly.mono {n m : Node} {f : Fault} (h : FailsPlainly n f)
    (hwithin : m.every Node.writable = true → n.every Node.writable = true) : FailsPlainly m f := by
  refine h.imp_right fun ⟨hf, hn⟩ => ⟨hf, Bool.eq_false_iff.2 fun hm => ?_⟩
  rw [hwithin hm] at hn
  cases hn

/-- An attribute is shown, or a number among the attributes is too long. -/
theorem failsAs_toText {key : String} {v : Value} (hv : Entries.get? as key = some v)
    (cs : List Node) : FailsAs (FailsPlainly (.element name as cs)) v.toText := by
  unfold Value.toText
  split
  · exact .ok _
  · rename_i hlong
    refine .error (failsPlainly_tooLong (Bool.eq_false_iff.2 fun has => hlong ?_))
    exact Value.isWritable_mapping.1 has _ (Entries.mem_of_get? hv)

theorem failsAs_openingTag_mapping {ms : Attributes} (tag : String) (cs : List Node)
    (hms : Node.writable name as = true → (Value.mapping ms).isWritable = true) :
    FailsAs (FailsPlainly (.element name as cs)) (openingTag tag (some (.mapping ms))) := by
  rw [openingTag]
  split
  · exact .ok _
  · rename_i hlong
    exact .error (failsPlainly_tooLong (Bool.eq_false_iff.2 fun has => hlong (hms has)))

theorem failsAs_openingTag (h : mapsAttributes name as = true) (tag : String) (cs : List Node) :
    FailsAs (FailsPlainly (.element name as cs)) (openingTag tag (htmlAttributes as)) := by
  rcases mapsAttributes_iff.1 h with h | ⟨ms, h⟩
  · rw [h]
    exact .ok _
  · rw [h]
    exact failsAs_openingTag_mapping tag cs fun has =>
      Value.isWritable_mapping.1 has _ (Entries.mem_of_get? h)

theorem fill_default (target : String) :
    ∃ s, LinkTemplate.fill RenderConfig.default.podLinkTemplate target = .ok s := by
  exact ⟨_, rfl⟩

theorem failsAs_setAttribute {key : String} {v : Value} (h : setAttribute? as key = some v)
    (name : String) (cs : List Node) :
    FailsAs (FailsPlainly (.element name as cs)) v.toText :=
  failsAs_toText (Option.filter_eq_some_iff.1 h).1 cs

theorem failsAs_linkPage [Highlighter] (fallback : String) (name : String) (as : Attributes)
    (cs : List Node) :
    FailsAs (FailsPlainly (.element name as cs)) (Renderer.linkPage ⟨.default, fallback⟩ as) := by
  unfold Renderer.linkPage
  split
  · exact .ok _
  · rename_i hto
    refine (failsAs_setAttribute hto name cs).bind fun shown _ => ?_
    split
    · obtain ⟨page, hpage⟩ := fill_default shown
      rw [hpage]
      exact .ok _
    · exact .ok _

theorem failsAs_linkPlace [Highlighter] (fallback : String) (name : String) (as : Attributes)
    (cs : List Node) :
    FailsAs (FailsPlainly (.element name as cs)) (Renderer.linkPlace ⟨.default, fallback⟩ as) := by
  unfold Renderer.linkPlace
  split
  · exact .ok _
  · exact (failsAs_setAttribute ‹_› name cs).bind fun _ _ => .ok _

theorem failsAs_linkAddress [Highlighter] (fallback : String) (name : String) (as : Attributes)
    (cs : List Node) :
    FailsAs (FailsPlainly (.element name as cs))
      (Renderer.linkAddress ⟨.default, fallback⟩ as) :=
  (failsAs_linkPage fallback name as cs).bind fun _ _ =>
    (failsAs_linkPlace fallback name as cs).bind fun _ _ => .ok _

theorem failsAs_linkHtml [Highlighter] (fallback : String) (h : mapsAttributes name as = true)
    (cs : List Node) :
    FailsAs (FailsPlainly (.element name as cs))
      (Renderer.linkHtml ⟨.default, fallback⟩ as >>= openingTag "a") := by
  have hlink : ∀ address, ∃ ms, linkAttributes as address = .ok (.mapping ms) ∧
      (Node.writable name as = true → (Value.mapping ms).isWritable = true) := by
    intro address
    rw [linkAttributes]
    rcases mapsAttributes_iff.1 h with h | ⟨html, h⟩
    · exact ⟨_, by rw [show Entries.get? as Styling.htmlAttributesKey = none from h], fun _ => rfl⟩
    · refine ⟨_, by rw [show Entries.get? as Styling.htmlAttributesKey = some (.mapping html) from h],
        fun has => Value.isWritable_mapping.2 fun m hm => ?_⟩
      rcases Entries.mem_put hm with hm | rfl
      · exact Value.isWritable_mapping.1
          (Value.isWritable_mapping.1 has _ (Entries.mem_of_get? h)) m hm
      · rfl
  refine FailsAs.bind ((failsAs_linkAddress fallback name as cs).bind fun address _ => ?_)
    fun html hhtml => ?_
  · obtain ⟨ms, hms, -⟩ := hlink address
    exact .bind_ok hms (.ok _)
  · obtain ⟨address, -, hhtml⟩ := bind_eq_ok hhtml
    obtain ⟨ms, hms, hwritable⟩ := hlink address
    rw [hms] at hhtml
    cases hhtml
    exact failsAs_openingTag_mapping "a" cs hwritable

end

/-- Where the configuration is the default, text of an element's own fails to be made only for a
number that is too long. -/
theorem own_layout_default [Highlighter] {fallback name : String} {as : Attributes} {cs : List Node}
    (h : (Node.element name as cs).every mapsAttributes = true) :
    ∀ s, .own s ∈ Renderer.layout ⟨.default, fallback⟩ name as cs →
      FailsAs (FailsPlainly (.element name as cs)) s := by
  obtain ⟨has, hcs⟩ := Node.every_element.1 h
  intro s hs
  let Fails : Piece → Prop := fun p =>
    ∀ s, p = .own s → FailsAs (FailsPlainly (.element name as cs)) s
  refine forall_layout (P := Fails) ?_ ?_ ?_ ?_ ?_ ?_ ?_ ?_ _ hs s rfl
  · rintro t _ ⟨⟩
    exact .ok t
  · exact fun _ => nofun
  · exact fun _ => nofun
  · rintro tag _ ⟨⟩
    exact failsAs_openingTag has tag cs
  · rintro t ht _ ⟨⟩
    have hmem := marker_mem ht
    have hterm := Node.everyAll_iff.1 hcs _ hmem
    intro f hf
    refine (failsAs_openingTag (Node.every_element.1 hterm).1 "dt" t.label f hf).mono fun hall => ?_
    exact Node.everyAll_iff.1 (Node.every_element.1 hall).2 _ hmem
  · rintro _ ⟨⟩
    exact failsAs_linkHtml fallback has cs
  · rintro language hlanguage
    cases hlanguage
  · exact fun _ => nofun

theorem every_of_mem_steps {r : Renderer} {test : String → Attributes → Bool} {name : String}
    {as : Attributes} {cs : List Node} (h : (Node.element name as cs).every test = true) {v : Visit}
    (hv : v ∈ r.steps name cs) : v.node.every test = true := by
  have hcs := Node.everyAll_iff.1 (Node.every_element.1 h).2
  rcases mem_steps hv with ⟨_, hchild, _⟩ | ⟨_, bs, ls, _, hterm, hlabel⟩
  · exact hcs _ hchild
  · exact Node.everyAll_iff.1 (Node.every_element.1 (hcs _ hterm)).2 _ hlabel

/-- Where two parts are shown, the one or the other fails. -/
theorem error_of_append {x y : Rendered String} {log log' : List Notice} {f : Fault}
    (h : (x >>= fun first => y >>= fun others => pure (first ++ others)) log = .error f log') :
    x log = .error f log' ∨ ∃ log, y log = .error f log' := by
  rcases bind_error h with hx | ⟨first, log₁, -, hrest⟩
  · exact .inl hx
  rcases bind_error hrest with hy | ⟨others, log₂, -, hend⟩
  · exact .inr ⟨log₁, hy⟩
  · cases hend

/-- Making pieces fails for causes of a kind, if making each of them does. -/
theorem allowed_of_perform {r : Renderer} {trail : List String} {allowed : Fault → Prop} {f : Fault}
    {log' : List Notice} (hstuck : f.isStuck = true → allowed f) (ps : List Piece)
    (hown : ∀ s, .own s ∈ ps → FailsAs allowed s)
    (hshown : ∀ v, .node v ∈ ps → ∀ log, r.render trail v.node log = .error f log' → allowed f)
    (log : List Notice) (h : r.perform trail ps log = .error f log') : allowed f := by
  induction ps generalizing log with
  | nil => cases h
  | cons p rest ih =>
    replace ih := ih (fun s h => hown s (List.mem_cons_of_mem _ h))
      (fun v h => hshown v (List.mem_cons_of_mem _ h))
    cases p with
    | own s =>
      rcases error_of_append h with hfirst | ⟨log₁, hothers⟩
      · refine hown s List.mem_cons_self f ?_
        cases s with
        | ok t => cases hfirst
        | error g =>
          cases hfirst
          rfl
      · exact ih log₁ hothers
    | notice n => exact ih _ h
    | node v =>
      rcases error_of_append h with hfirst | ⟨log₁, hothers⟩
      · exact hshown v List.mem_cons_self log hfirst
      · exact ih log₁ hothers
    | stuck name =>
      cases h
      exact hstuck rfl

/-- Where the configuration is the default, only an element that cannot be shown makes a rendering
fail, or a number in the attributes of one that is too long. -/
theorem render_default_error [Highlighter] (fallback : String) (n : Node)
    (hn : n.every mapsAttributes = true) (trail : List String) {log log' : List Notice} {f : Fault}
    (h : Renderer.render ⟨.default, fallback⟩ trail n log = .error f log') : FailsPlainly n f := by
  induction n using walk_induction ⟨.default, fallback⟩ generalizing trail log log' f with
  | text s =>
    rw [render, text_eq orderly_default] at h
    cases h
  | element name as cs ih =>
    rw [render_element] at h
    refine allowed_of_perform .inl _ (own_layout_default hn) (fun v hv log h => ?_) _ h
    have hstep := mem_steps_of_mem_layout hv
    exact (ih v hstep (every_of_mem_steps hn hstep) _ h).mono fun hall =>
      every_of_mem_steps hall hstep

end Renderer
end RouteDocs.Html
