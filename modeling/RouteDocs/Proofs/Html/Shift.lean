import RouteDocs.Proofs.Html.Walk

/-!
# Where a rendering stands

A rendering is told which elements are around it and what has been noted
before. Neither has a part in what it shows or whether it fails: it adds its
own notices to those before, and a failure names the elements around first.

Results:
* `render_append`: a rendering with more around it and more noted before.
* `render_ok_iff`: what a rendering shows, it shows anywhere.
-/
namespace RouteDocs

namespace Fault

/-- A failure, as one within the elements named. -/
def beneath (outer : List String) : Fault → Fault
  | .unrenderable name trail routeSection => .unrenderable name (outer ++ trail) routeSection
  | f => f

theorem beneath_nil (f : Fault) : f.beneath [] = f := by
  cases f <;> rfl

theorem beneath_of_isStuck {f : Fault} (h : f.isStuck = false) (outer : List String) :
    f.beneath outer = f := by
  cases f <;> first | rfl | cases h

end Fault

namespace Html.Renderer

open EStateM (Result)

/-- The result of a rendering, with more elements around it and more noted before. -/
def shifted {α : Type} (outer : List String) (before : List Notice) :
    Result Fault (List Notice) α → Result Fault (List Notice) α
  | .ok a log => .ok a (before ++ log)
  | .error f log => .error (f.beneath outer) (before ++ log)

section
variable {outer trail : List String} {before log : List Notice}

theorem quiet_append {s : Except Fault String} (h : NotStuck s) :
    quiet s (before ++ log) = shifted outer before (quiet s log) := by
  cases s with
  | ok page => rfl
  | error f => exact congrArg (Result.error · _) (f.beneath_of_isStuck (h f rfl) outer).symm

/-- Two parts shown one after the other. -/
theorem append_shifted {x x' y y' : Rendered String}
    (hx : x (before ++ log) = shifted outer before (x' log))
    (hy : ∀ log, y (before ++ log) = shifted outer before (y' log)) :
    (x >>= fun first => y >>= fun others => pure (first ++ others)) (before ++ log) =
      shifted outer before
        ((x' >>= fun first => y' >>= fun others => pure (first ++ others)) log) := by
  cases hfirst : x' log with
  | error f log' =>
    rw [bind_of_error hfirst, bind_of_error (hx.trans (congrArg _ hfirst))]
    rfl
  | ok first log' =>
    rw [bind_of_ok hfirst, bind_of_ok (hx.trans (congrArg _ hfirst))]
    cases hothers : y' log' with
    | error f log'' =>
      rw [bind_of_error hothers, bind_of_error ((hy log').trans (congrArg _ hothers))]
      rfl
    | ok others log'' =>
      rw [bind_of_ok hothers, bind_of_ok ((hy log').trans (congrArg _ hothers))]
      rfl

theorem perform_append_trail {r : Renderer} (ps : List Piece)
    (hown : ∀ s, .own s ∈ ps → NotStuck s)
    (hshown : ∀ v, .node v ∈ ps → ∀ log, r.render (outer ++ trail) v.node (before ++ log) =
      shifted outer before (r.render trail v.node log)) (log : List Notice) :
    r.perform (outer ++ trail) ps (before ++ log) =
      shifted outer before (r.perform trail ps log) := by
  induction ps generalizing log with
  | nil => rfl
  | cons p rest ih =>
    replace ih := ih (fun s h => hown s (List.mem_cons_of_mem _ h))
      (fun v h => hshown v (List.mem_cons_of_mem _ h))
    cases p with
    | own s => exact append_shifted (quiet_append (hown s List.mem_cons_self)) ih
    | notice n =>
      rw [perform_notice, perform_notice]
      exact (congrArg _ (List.append_assoc ..)).trans (ih (log ++ [n]))
    | node v => exact append_shifted (hshown v List.mem_cons_self log) ih
    | stuck name => rfl

end

theorem mem_steps_of_mem_layout {r : Renderer} {name : String} {as : Attributes} {cs : List Node}
    {v : Visit} (h : .node v ∈ r.layout name as cs) : v ∈ r.steps name cs := by
  rw [← visits_layout r name as cs]
  exact List.mem_flatMap.2 ⟨_, h, List.mem_singleton_self v⟩

/-- A rendering with more elements around it and more noted before. -/
theorem render_append (r : Renderer) (outer trail : List String) (n : Node)
    (before log : List Notice) :
    r.render (outer ++ trail) n (before ++ log) =
      shifted outer before (r.render trail n log) := by
  induction n using walk_induction r generalizing trail log with
  | text s =>
    rw [render, render]
    exact quiet_append (r.notStuck_text s)
  | element name as cs ih =>
    rw [render_element, render_element, List.append_assoc]
    exact perform_append_trail _ (r.notStuck_layout name as cs)
      (fun v hv log => ih v (mem_steps_of_mem_layout hv) _ log) log

/-- What a rendering shows, it shows anywhere. -/
theorem render_ok_iff (r : Renderer) (trail : List String) (n : Node) (log : List Notice)
    (page : String) :
    (∃ log', r.render trail n log = .ok page log') ↔ ∃ log', r.render [] n [] = .ok page log' := by
  have h := r.render_append trail [] n log []
  rw [List.append_nil, List.append_nil] at h
  rw [h]
  cases r.render [] n [] with
  | ok page' log' => simp [shifted]
  | error f log' => simp [shifted]

end Html.Renderer
end RouteDocs
