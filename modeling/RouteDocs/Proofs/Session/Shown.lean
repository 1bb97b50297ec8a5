import Mathlib.Data.Nat.Find
import RouteDocs.Proofs.Catalog
import RouteDocs.Proofs.Session.Halt

/-!
# Which nodes of routes can be shown

A node belongs to a route if it is in the section that a heading of level three
opens. The routes can be made if all such nodes can be shown, and else they
stop at the first that cannot.

Results:
* `routeSection_eq_some_iff`: the section of a node is that of the heading that opens it.
* `halts_anchorTops`: the first node that cannot be shown stops the routes.
* `group_isSome`: where all nodes of routes can be shown, there are routes.
* `exists_first_stuck`: where some cannot be shown, there is a first one.
-/
namespace RouteDocs

/-! ## Sections -/

/-- A heading of level three opens the section that a row of nodes ends in. -/
def Opens (h : Node) (ns : List Node) : Prop :=
  ∃ before body, ns = before ++ h :: body ∧ h.isA .head3 = true ∧
    ∀ n ∈ body, n.endsSection = false

section
variable {h n : Node} {ns : List Node}

theorem opens_concat :
    Opens h (ns ++ [n]) ↔ (h = n ∧ n.isA .head3 = true) ∨ n.endsSection = false ∧ Opens h ns := by
  constructor
  · rintro ⟨before, body, heq, h3, hbody⟩
    rcases body.eq_nil_or_concat' with rfl | ⟨body, m, rfl⟩
    · obtain rfl : n = h := (List.cons.inj (List.append_inj' heq rfl).2).1
      exact .inl ⟨rfl, h3⟩
    · rw [← List.cons_append, ← List.append_assoc] at heq
      obtain ⟨rfl, hlast⟩ := List.append_inj' heq rfl
      obtain rfl : n = m := (List.cons.inj hlast).1
      exact .inr ⟨hbody n (by simp), before, body, rfl, h3, fun m hm => hbody m (by simp [hm])⟩
  · rintro (⟨rfl, h3⟩ | ⟨hends, before, body, rfl, h3, hbody⟩)
    · exact ⟨ns, [], rfl, h3, nofun⟩
    · refine ⟨before, body ++ [n], by simp, h3, fun m hm => ?_⟩
      rcases List.mem_append.1 hm with hm | hm
      · exact hbody m hm
      · rw [List.mem_singleton.1 hm]
        exact hends

/-- A row of nodes ends in the section of the heading that opens it. -/
theorem routeSection_eq_some_iff {t : String} :
    (Place.start.afterAll ns).routeSection = some t ↔ ∃ h, Opens h ns ∧ t = h.flatten := by
  induction ns using List.reverseRecOn with
  | nil =>
    refine iff_of_false nofun ?_
    rintro ⟨h, ⟨before, body, heq, -, -⟩, -⟩
    exact absurd heq (by simp)
  | append_singleton ns n ih =>
    rw [Place.afterAll_append]
    show (Place.after _ n).routeSection = _ ↔ _
    cases hends : n.endsSection with
    | false =>
      have h3 := Node.isA_head3_of_not_end hends
      simp [Place.routeSection_after hends, ih, opens_concat, hends, h3]
    | true =>
      cases h3 : n.isA .head3 with
      | true => simp [Place.after_head3 h3, opens_concat, hends, h3, eq_comm]
      | false =>
        rw [Place.after_closing (Node.closing_of_endsSection hends h3)]
        simp [Place.start, opens_concat, hends, h3]

end

namespace Document

open Heading (anchorTop anchorTops)
open Html (Renderer)

/-! ## Which nodes are shown -/

/-- A route goes with a place: it has the section of the place, and a key that can be one. -/
structure GoesWith (p : Place) (route : Option (Value × String)) : Prop where
  routeSection : route.map Prod.snd = p.routeSection
  key : ∀ key t, route = some (key, t) → key.isScalar = true

/-- The headings of routes have anchors that can be keys. -/
def Keyed (ns : List Node) : Prop :=
  ∀ n ∈ ns, n.isA .head3 = true → (Anchor.ofNode n).isScalar = true

/-- The nodes behind a place that are in a section can be shown. -/
def ShowsRoutes (r : Renderer) : Place → List Node → Prop
  | _, [] => True
  | p, n :: rest =>
    ((p.after n).routeSection.isSome = true → r.Shows n) ∧ ShowsRoutes r (p.after n) rest

section
variable {r : Renderer} {p : Place} {route : Option (Value × String)} {n : Node} {ns : List Node}

theorem GoesWith.start : GoesWith Place.start none :=
  ⟨rfl, nofun⟩

theorem GoesWith.after {ids : Identifiers} (h : GoesWith p route)
    (hkey : n.isA .head3 = true → (Anchor.ofNode (anchorTop ids n).1).isScalar = true) :
    GoesWith (p.after n) (routeAfter route (anchorTop ids n).1) := by
  cases h3 : n.isA .head3 with
  | true =>
    rw [Place.after_head3 h3, routeAfter_head3 ((Heading.isA_anchorTop ids n .head3).trans h3),
      Heading.flatten_anchorTop]
    refine ⟨rfl, ?_⟩
    rintro key t ⟨⟩
    exact hkey h3
  | false =>
    rw [Heading.anchorTop_other h3]
    cases hends : n.endsSection with
    | true =>
      rw [Place.after_closing (Node.closing_of_endsSection hends h3),
        routeAfter_of_endsSection hends h3]
      exact .start
    | false =>
      rw [routeAfter_of_not_endsSection hends]
      exact ⟨h.routeSection.trans (Place.routeSection_after hends p).symm, h.key⟩

theorem GoesWith.passes (h : GoesWith p route) (hn : p.routeSection.isSome = true → r.Shows n) :
    Passes r route n := by
  rintro key t rfl
  exact ⟨h.key key t rfl, hn (by rw [← h.routeSection]; rfl)⟩

theorem Keyed.head {ids : Identifiers} {rest : List Node}
    (h : Keyed (anchorTops ids (n :: rest)).1) (h3 : n.isA .head3 = true) :
    (Anchor.ofNode (anchorTop ids n).1).isScalar = true :=
  h _ List.mem_cons_self ((Heading.isA_anchorTop ids n .head3).trans h3)

theorem Keyed.tail {ids : Identifiers} {rest : List Node}
    (h : Keyed (anchorTops ids (n :: rest)).1) : Keyed (anchorTops (anchorTop ids n).2 rest).1 :=
  fun m hm => h m (List.mem_cons_of_mem _ hm)

theorem shows_anchorTop (h : r.Shows n) (ids : Identifiers) : r.Shows (anchorTop ids n).1 :=
  h.congr (r.render_anchorTop [] ids n)

/-- The first node of a section that cannot be shown stops the routes. -/
theorem halts_anchorTops {ids : Identifiers} {t : String} {g : Fault} {log : List Notice}
    (hroute : GoesWith p route) (hkeyed : Keyed (anchorTops ids (ns ++ [n])).1)
    (hshown : ShowsRoutes r p ns) (ht : (p.afterAll (ns ++ [n])).routeSection = some t)
    (herror : r.render [] n [] = .error g log) :
    Halts r (g.within t) route (anchorTops ids (ns ++ [n])).1 := by
  induction ns generalizing p route ids with
  | nil =>
    have hafter := hroute.after hkeyed.head
    obtain ⟨⟨key, t'⟩, hsome, rfl⟩ := Option.map_eq_some_iff.1 (hafter.routeSection.trans ht)
    have hrender : r.render [] (anchorTop ids n).1 [] = .error g log := by
      rw [r.render_anchorTop]
      exact herror
    exact .stop ⟨key, t', g, log, hsome, hafter.key key t' hsome, hrender, rfl⟩
  | cons m rest ih =>
    have hafter := hroute.after hkeyed.head
    exact .pass (hafter.passes fun hsome => shows_anchorTop (hshown.1 hsome) ids)
      (ih hafter hkeyed.tail hshown.2 ht)

theorem group_of_passes {current : Option (Value × String)} (rs : Routes)
    (h : Passes r (routeAfter current n) n) (rest : List Node) :
    ∃ rs', ∀ log, ∃ log', group r current rs log (n :: rest) =
      group r (routeAfter current n) rs' log' rest := by
  cases hroute : routeAfter current n with
  | none =>
    exact ⟨rs, fun log => ⟨log, group_of_none hroute rs log rest⟩⟩
  | some route =>
    obtain ⟨key, routeSection⟩ := route
    obtain ⟨hkey, hshows⟩ := h key routeSection hroute
    exact ⟨rs.add key (r.shown n), fun log => group_shown hroute hkey hshows rs log rest⟩

/-- Where all nodes of sections can be shown there are routes, whatever was noted before. -/
theorem group_isSome {ids : Identifiers} (rs : Routes) (hroute : GoesWith p route)
    (hkeyed : Keyed (anchorTops ids ns).1) (hshown : ShowsRoutes r p ns) :
    ∃ rs', ∀ log, ∃ log', group r route rs log (anchorTops ids ns).1 = some (rs', log') := by
  induction ns generalizing p route ids rs with
  | nil => exact ⟨rs, fun log => ⟨log, rfl⟩⟩
  | cons n rest ih =>
    have hafter := hroute.after hkeyed.head
    have hpasses := hafter.passes fun hsome => shows_anchorTop (hshown.1 hsome) ids
    obtain ⟨rs₁, hfirst⟩ := group_of_passes rs hpasses (anchorTops (anchorTop ids n).2 rest).1
    obtain ⟨rs', hrest⟩ := ih rs₁ hafter hkeyed.tail hshown.2
    refine ⟨rs', fun log => ?_⟩
    obtain ⟨log₁, hfirst⟩ := hfirst log
    obtain ⟨log', hrest⟩ := hrest log₁
    exact ⟨log', hfirst.trans hrest⟩

end

/-! ## What cannot be shown -/

/-- The node at a position is in the section of a heading and cannot be shown. -/
structure StuckAt (r : Renderer) (ns : List Node) (i : Nat) (h n : Node) : Prop where
  node : ns[i]? = some n
  opened : Opens h (ns.take (i + 1))
  refused : ¬ r.Shows n

section
variable {r : Renderer} {p : Place} {ns : List Node}

theorem showsRoutes_of_getElem? (h : ∀ i n, ns[i]? = some n →
    (p.afterAll (ns.take (i + 1))).routeSection.isSome = true → r.Shows n) :
    ShowsRoutes r p ns := by
  induction ns generalizing p with
  | nil => trivial
  | cons n rest ih => exact ⟨h 0 n rfl, ih fun i m hm => h (i + 1) m hm⟩

theorem shows_of_not_stuck {i : Nat} {n : Node} (hn : ns[i]? = some n)
    (hsome : (Place.start.afterAll (ns.take (i + 1))).routeSection.isSome = true)
    (h : ∀ h', ¬ StuckAt r ns i h' n) : r.Shows n := by
  obtain ⟨t, ht⟩ := Option.isSome_iff_exists.1 hsome
  obtain ⟨h', hopens, -⟩ := routeSection_eq_some_iff.1 ht
  by_contra hrefused
  exact h h' ⟨hn, hopens, hrefused⟩

/-- If there is a node that cannot be shown, there is a first one, and those before it that are in
sections can be shown. -/
theorem exists_first_stuck (h : ∃ i h n, StuckAt r ns i h n) :
    ∃ i h n, StuckAt r ns i h n ∧ (∀ j h' m, StuckAt r ns j h' m → i ≤ j) ∧
      ShowsRoutes r .start (ns.take i) := by
  classical
  obtain ⟨h', n, hstuck⟩ := Nat.find_spec h
  have hfirst : ∀ j h' m, StuckAt r ns j h' m → Nat.find h ≤ j := fun j h' m hj =>
    Nat.find_min' h ⟨h', m, hj⟩
  refine ⟨Nat.find h, h', n, hstuck, hfirst, showsRoutes_of_getElem? fun j m hm hsome => ?_⟩
  have hlt : j < Nat.find h := by
    have := (List.getElem?_eq_some_iff.1 hm).1
    rw [List.length_take] at this
    omega
  rw [List.getElem?_take_of_lt hlt] at hm
  rw [List.take_take, Nat.min_eq_left (by omega)] at hsome
  refine shows_of_not_stuck hm hsome fun h'' hstuck => ?_
  have := hfirst j h'' m hstuck
  omega

end

end Document
end RouteDocs
