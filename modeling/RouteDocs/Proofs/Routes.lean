import RouteDocs.Document
import RouteDocs.Proofs.Directive.Step
import RouteDocs.Proofs.Entries
import RouteDocs.Proofs.Heading.Page
import RouteDocs.Proofs.Html.Render
import RouteDocs.Proofs.Page

/-!
# Routes of a page

The routes are made block by block: a heading of level three is given its
anchor, and a block of a route is shown. Taken apart, this is an anchoring of
the page and, of the page with its anchors, a grouping that reads no other
anchors than those of the routes.

Results:
* `routesFrom_cons`: what making the routes does at a block.
* `routesFrom_ok`: making the routes is anchoring and grouping.
* `keys_group`: the keys of the routes are the anchors of their headings.
* `group_anchorFoundAll`: anchors elsewhere make no difference to the routes.
-/
namespace RouteDocs.Document

open Heading (anchorFound anchorFoundAll anchorTop anchorTops anchors)

/-! ## Grouping -/

/-- The route that a node with its anchor belongs to, given that of the node before. -/
def routeAfter (current : Option (Value × String)) (n : Node) : Option (Value × String) :=
  match n.kind? with
  | some .head1 | some .head2 => none
  | some .head3 => some (Anchor.ofNode n, n.flatten)
  | _ => current

/-- The routes with those of further nodes, that have their anchors, added, and what is noted on
the way; none if a node cannot be shown. -/
def group (r : Html.Renderer) (current : Option (Value × String)) (rs : Routes)
    (log : List Notice) : List Node → Option (Routes × List Notice)
  | [] => some (rs, log)
  | n :: rest =>
    match routeAfter current n with
    | none => group r none rs log rest
    | some (key, routeSection) =>
      if key.isScalar then
        match (r.render [] n).run log with
        | .ok s log => group r (some (key, routeSection)) (rs.add key s) log rest
        | .error .. => none
      else none

/-! ## Making the routes -/

def progressed (d : Document) (blocks : List Block) (ids : Identifiers) (log : List Notice) :
    Document :=
  { d.withPage { d.draft.page with blocks := blocks } with ids := ids, log := log }

theorem anchorBlock_apply (d : Document) (b : Block) :
    anchorBlock b d =
      .ok (Anchor.ensureNode d.ids b.node).1
        { d.withPage (d.draft.page.modify b.label fun _ => (Anchor.ensureNode d.ids b.node).1) with
          ids := (Anchor.ensureNode d.ids b.node).2 } :=
  rfl

section
variable {d : Document} {current : Option (Value × String)} {before rest : List Block} {b : Block}

theorem enterBlock_head3 (hlabels : d.draft.page.WellLabelled)
    (hblocks : d.draft.page.blocks = before ++ b :: rest) (h3 : b.node.isA .head3 = true) :
    enterBlock current b d =
      .ok (routeAfter current (anchorFound d.ids b.node).1, (anchorFound d.ids b.node).1)
        (d.progressed (before ++ ⟨b.label, (anchorFound d.ids b.node).1⟩ :: rest)
          (anchorFound d.ids b.node).2 d.log) := by
  have hkind := Node.isA_iff_kind?.1 h3
  have hkind' := Node.isA_iff_kind?.1 ((Heading.isA_anchorFound d.ids b.node .head3).trans h3)
  have hmodify := Page.modify_at hlabels hblocks fun _ => (anchorFound d.ids b.node).1
  rw [routeAfter, hkind']
  rw [Heading.anchorFound_head3 h3] at hmodify ⊢
  simp only [enterBlock, hkind, bind, EStateM.bind, anchorBlock_apply, hmodify]
  rfl

theorem enterBlock_other (hblocks : d.draft.page.blocks = before ++ b :: rest)
    (h3 : b.node.isA .head3 = false) :
    enterBlock current b d =
      .ok (routeAfter current b.node, b.node) (d.progressed (before ++ b :: rest) d.ids d.log) := by
  have hsame : d.progressed (before ++ b :: rest) d.ids d.log = d := by rw [← hblocks]; rfl
  rw [Node.isA] at h3
  rw [hsame, enterBlock, routeAfter]
  cases hkind : b.node.kind? with
  | none => rfl
  | some k => cases k <;> first | rfl | simp [hkind] at h3

theorem enterBlock_eq (current : Option (Value × String)) (hlabels : d.draft.page.WellLabelled)
    (hblocks : d.draft.page.blocks = before ++ b :: rest) :
    enterBlock current b d =
      .ok (routeAfter current (anchorTop d.ids b.node).1, (anchorTop d.ids b.node).1)
        (d.progressed (before ++ ⟨b.label, (anchorTop d.ids b.node).1⟩ :: rest)
          (anchorTop d.ids b.node).2 d.log) := by
  cases h3 : b.node.isA .head3 with
  | true => rw [Heading.anchorTop_head3 h3, enterBlock_head3 hlabels hblocks h3]
  | false => rw [Heading.anchorTop_other h3, enterBlock_other hblocks h3]

end

/-- Showing a node only adds to what is noted. A failure is known to be within the section. -/
theorem htmlWithin_eq (routeSection : String) (n : Node) (d : Document) :
    htmlWithin routeSection n d =
      match d.renderer.render [] n d.log with
      | .ok s log => .ok s { d with log := log }
      | .error f log => .error (f.within routeSection) { d with log := log } := by
  simp only [htmlWithin, EStateM.run, html]
  cases d.renderer.render [] n d.log <;> rfl

theorem renderer_progressed {d : Document} {ids : Identifiers}
    (hfallback : ids.fallback = d.ids.fallback) (blocks : List Block) (log : List Notice) :
    (d.progressed blocks ids log).renderer = d.renderer := by
  rw [renderer, renderer, ← hfallback]
  rfl

theorem wellLabelled_progressed {d : Document} {before rest : List Block} {b : Block}
    (hlabels : d.draft.page.WellLabelled) (hblocks : d.draft.page.blocks = before ++ b :: rest)
    (n : Node) (ids : Identifiers) (log : List Notice) :
    (d.progressed (before ++ ⟨b.label, n⟩ :: rest) ids log).draft.page.WellLabelled := by
  have hmodified := Page.wellLabelled_modify hlabels b.label fun _ => n
  rwa [Page.modify_at hlabels hblocks] at hmodified

/-- At a block its anchor is seen to first. If it then belongs to a route it is shown, and where
that fails, the routes stop. -/
theorem routesFrom_cons {d : Document} {before rest : List Block} {b : Block}
    (current : Option (Value × String)) (rs : Routes) (hlabels : d.draft.page.WellLabelled)
    (hblocks : d.draft.page.blocks = before ++ b :: rest) (bs : List Block) :
    routesFrom current rs (b :: bs) d =
      let n := (anchorTop d.ids b.node).1
      let entered := d.progressed (before ++ ⟨b.label, n⟩ :: rest) (anchorTop d.ids b.node).2
      match routeAfter current n with
      | none => routesFrom none rs bs (entered d.log)
      | some (key, routeSection) =>
        if key.isScalar then
          match d.renderer.render [] n d.log with
          | .ok s log => routesFrom (some (key, routeSection)) (rs.add key s) bs (entered log)
          | .error f log => .error (f.within routeSection) (entered log)
        else .error .wrongType (entered d.log) := by
  have hrenderer := renderer_progressed (Heading.fallback_anchorTop d.ids b.node)
    (before ++ ⟨b.label, (anchorTop d.ids b.node).1⟩ :: rest) d.log
  have hlog : ∀ blocks ids, (d.progressed blocks ids d.log).log = d.log := fun _ _ => rfl
  rw [routesFrom, bind_of_ok (enterBlock_eq current hlabels hblocks)]
  dsimp only
  cases routeAfter current (anchorTop d.ids b.node).1 with
  | none => rfl
  | some route =>
    obtain ⟨key, routeSection⟩ := route
    cases hkey : key.isScalar with
    | false =>
      simp only [hkey]
      rfl
    | true =>
      simp only [hkey, Bool.not_true, Bool.false_eq_true, if_false, if_true, bind, EStateM.bind,
        htmlWithin_eq, hrenderer, hlog]
      cases d.renderer.render [] (anchorTop d.ids b.node).1 d.log <;> rfl

theorem routesFrom_cons_ok {d d' : Document} {current : Option (Value × String)}
    {rs rs' : Routes} {before rest : List Block} {b : Block} (hlabels : d.draft.page.WellLabelled)
    (hblocks : d.draft.page.blocks = before ++ b :: rest)
    (h : routesFrom current rs (b :: rest) d = .ok rs' d') :
    ∃ n ids, anchorTops d.ids (b.node :: rest.map (·.node)) =
        (n :: (anchorTops ids (rest.map (·.node))).1, (anchorTops ids (rest.map (·.node))).2) ∧
      ids.fallback = d.ids.fallback ∧
      (routeAfter current n = none ∧
          routesFrom none rs rest (d.progressed (before ++ ⟨b.label, n⟩ :: rest) ids d.log) =
            .ok rs' d' ∨
        ∃ key routeSection s log, routeAfter current n = some (key, routeSection) ∧
          key.isScalar = true ∧ (d.renderer.render [] n).run d.log = .ok s log ∧
          routesFrom (some (key, routeSection)) (rs.add key s) rest
              (d.progressed (before ++ ⟨b.label, n⟩ :: rest) ids log) = .ok rs' d') := by
  refine ⟨_, _, Heading.anchorTops_cons .., Heading.fallback_anchorTop d.ids b.node, ?_⟩
  rw [routesFrom_cons current rs hlabels hblocks] at h
  dsimp only at h
  cases hroute : routeAfter current (anchorTop d.ids b.node).1 with
  | none =>
    rw [hroute] at h
    exact .inl ⟨rfl, h⟩
  | some route =>
    obtain ⟨key, routeSection⟩ := route
    simp only [hroute] at h
    cases hkey : key.isScalar with
    | false =>
      simp only [hkey] at h
      cases h
    | true =>
      simp only [hkey, if_true] at h
      cases hrender : d.renderer.render [] (anchorTop d.ids b.node).1 d.log with
      | error f log =>
        simp only [hrender] at h
        cases h
      | ok s log =>
        simp only [hrender] at h
        exact .inr ⟨key, routeSection, s, log, rfl, hkey, hrender, h⟩

/-- What makes the routes anchors the blocks and groups them. -/
theorem routesFrom_ok {d d' : Document} {current : Option (Value × String)} {rs rs' : Routes}
    {before rest : List Block} (hlabels : d.draft.page.WellLabelled)
    (hblocks : d.draft.page.blocks = before ++ rest) (h : routesFrom current rs rest d = .ok rs' d') :
    ∃ log, group d.renderer current rs d.log (anchorTops d.ids (rest.map (·.node))).1 =
        some (rs', log) ∧
      d' = d.progressed (before ++ Page.renew rest (anchorTops d.ids (rest.map (·.node))).1)
        (anchorTops d.ids (rest.map (·.node))).2 log := by
  induction rest generalizing d current rs before with
  | nil =>
    obtain ⟨rfl, rfl⟩ : rs = rs' ∧ d = d' := by simpa [routesFrom, pure, EStateM.pure] using h
    have hsame : d.progressed (before ++ []) d.ids d.log = d := by rw [← hblocks]; rfl
    exact ⟨d.log, rfl, hsame.symm⟩
  | cons b rest ih =>
    obtain ⟨n, ids, htops, hfallback, h⟩ := routesFrom_cons_ok hlabels hblocks h
    rw [List.map_cons, htops, Page.renew_cons, group]
    have hlabels' := wellLabelled_progressed hlabels hblocks n ids
    have hblocks' : ∀ log, (d.progressed (before ++ ⟨b.label, n⟩ :: rest) ids log).draft.page.blocks =
        before ++ [⟨b.label, n⟩] ++ rest := fun _ => List.append_cons ..
    have hrenderer := renderer_progressed hfallback (before ++ ⟨b.label, n⟩ :: rest)
    have hjoin := List.append_cons before ⟨b.label, n⟩
      (Page.renew rest (anchorTops ids (rest.map (·.node))).1)
    rcases h with ⟨hroute, h⟩ | ⟨key, routeSection, s, log₁, hroute, hkey, hrender, h⟩
    · obtain ⟨log, hgroup, rfl⟩ := ih (hlabels' d.log) (hblocks' d.log) h
      rw [hrenderer] at hgroup
      rw [hroute, hjoin]
      exact ⟨log, hgroup, rfl⟩
    · obtain ⟨log, hgroup, rfl⟩ := ih (hlabels' log₁) (hblocks' log₁) h
      rw [hrenderer] at hgroup
      simp only [hroute, hkey, if_true, hrender]
      rw [hjoin]
      exact ⟨log, hgroup, rfl⟩

/-! ## Which anchors the grouping reads -/

theorem routeAfter_head3 {n : Node} (h3 : n.isA .head3 = true) (current : Option (Value × String)) :
    routeAfter current n = some (Anchor.ofNode n, n.flatten) := by
  rw [routeAfter, Node.isA_iff_kind?.1 h3]

theorem routeAfter_other {n : Node} (h3 : n.isA .head3 = false)
    (current : Option (Value × String)) :
    routeAfter current n = none ∨ routeAfter current n = current := by
  rw [Node.isA] at h3
  rw [routeAfter]
  cases hkind : n.kind? with
  | none => exact .inr rfl
  | some k => cases k <;> first | exact .inl rfl | exact .inr rfl | simp [hkind] at h3

theorem routeAfter_anchorFound {n : Node} (h3 : n.isA .head3 = false) (ids : Identifiers)
    (current : Option (Value × String)) :
    routeAfter current (anchorFound ids n).1 = routeAfter current n := by
  rw [Node.isA] at h3
  rw [routeAfter, routeAfter, Heading.kind?_anchorFound]
  cases hkind : n.kind? with
  | none => rfl
  | some k => cases k <;> first | rfl | simp [hkind] at h3

theorem routeAfter_anchorFound_of_filled {inside : Bool} {n : Node} {rest : List Node}
    (h : Slot.Filled Slot.tops (Heading.blockSlots inside (n :: rest))) (ids : Identifiers)
    (current : Option (Value × String)) :
    routeAfter current (anchorFound ids n).1 = routeAfter current n := by
  cases h3 : n.isA .head3 with
  | true => rw [Heading.anchorFound_of_filled ids n (Heading.filled_head h3 h)]
  | false => exact routeAfter_anchorFound h3 ids current

/-- Anchors elsewhere make no difference to the routes. -/
theorem group_anchorFoundAll (r : Html.Renderer) (current : Option (Value × String)) (rs : Routes)
    (log : List Notice) (ids : Identifiers) {inside : Bool} {ns : List Node}
    (h : Slot.Filled Slot.tops (Heading.blockSlots inside ns)) :
    group r current rs log (anchorFoundAll ids ns).1 = group r current rs log ns := by
  induction ns generalizing current rs log ids with
  | nil => rfl
  | cons n rest ih =>
    have hrest := Heading.filled_tail h
    rw [Heading.anchorFoundAll_cons, group, group, r.render_anchorFound,
      routeAfter_anchorFound_of_filled h]
    simp only [ih _ _ _ _ hrest]

/-! ## The keys of the routes -/

theorem sameKey_text (s t : String) : Value.sameKey (.text s) (.text t) = (s == t) := rfl

theorem eq_text_of_sameKey {v : Value} {t : String} (h : v.sameKey (.text t) = true) :
    v = .text t := by
  cases v with
  | text s => rw [eq_of_beq ((sameKey_text s t).symm.trans h)]
  | _ => cases h

def AllTexts (vs : List Value) : Prop :=
  ∀ v ∈ vs, ∃ s, v = .text s

theorem AllTexts.tail {v : Value} {vs : List Value} (h : AllTexts (v :: vs)) : AllTexts vs :=
  fun w hw => h w (List.mem_cons_of_mem _ hw)

theorem keys_add_of_mem {rs : Routes} {key : String} (htexts : AllTexts (Entries.keys rs))
    (h : .text key ∈ Entries.keys rs) (html : String) :
    Entries.keys (rs.add (.text key) html) = Entries.keys rs := by
  induction rs with
  | nil => cases h
  | cons entry rest ih =>
    obtain ⟨k, htmls⟩ := entry
    obtain ⟨s, rfl⟩ := htexts k List.mem_cons_self
    rw [Routes.add, sameKey_text]
    split
    · rfl
    · rename_i hne
      have hrest : .text key ∈ Entries.keys rest := by
        refine (List.mem_cons.1 h).resolve_left fun heq => hne ?_
        rw [Value.text.inj heq]
        exact beq_self_eq_true s
      exact congrArg (_ :: ·) (ih htexts.tail hrest)

/-- A key that is not there yet is looked for behind all others. -/
theorem add_append {rs : Routes} {key : String} (htexts : AllTexts (Entries.keys rs))
    (h : .text key ∉ Entries.keys rs) (rs' : Routes) (html : String) :
    (rs ++ rs').add (.text key) html = rs ++ rs'.add (.text key) html := by
  induction rs with
  | nil => rfl
  | cons entry rest ih =>
    obtain ⟨k, htmls⟩ := entry
    obtain ⟨s, rfl⟩ := htexts k List.mem_cons_self
    have hne : (s == key) = false := beq_eq_false_iff_ne.2 fun heq =>
      h (heq ▸ List.mem_cons_self)
    rw [List.cons_append, Routes.add, sameKey_text, hne, if_neg Bool.false_ne_true]
    exact congrArg (_ :: ·) (ih htexts.tail fun hmem => h (List.mem_cons_of_mem _ hmem))

theorem add_of_notMem {rs : Routes} {key : String} (htexts : AllTexts (Entries.keys rs))
    (h : .text key ∉ Entries.keys rs) (html : String) :
    rs.add (.text key) html = rs ++ [(.text key, [html])] := by
  have hadd := add_append htexts h [] html
  rwa [List.append_nil] at hadd

theorem keys_add_of_notMem {rs : Routes} {key : String} (htexts : AllTexts (Entries.keys rs))
    (h : .text key ∉ Entries.keys rs) (html : String) :
    Entries.keys (rs.add (.text key) html) = Entries.keys rs ++ [.text key] := by
  rw [add_of_notMem htexts h, Entries.keys, List.map_append]
  rfl

theorem group_of_none {r : Html.Renderer} {current : Option (Value × String)} {n : Node}
    (hroute : routeAfter current n = none) (rs : Routes) (log : List Notice) (rest : List Node) :
    group r current rs log (n :: rest) = group r none rs log rest := by
  rw [group, hroute]

theorem group_cons {r : Html.Renderer} {current : Option (Value × String)} {rs rs' : Routes}
    {log log' : List Notice} {n : Node} {rest : List Node} {key : Value} {routeSection : String}
    (hroute : routeAfter current n = some (key, routeSection))
    (h : group r current rs log (n :: rest) = some (rs', log')) :
    ∃ s log₁, group r (some (key, routeSection)) (rs.add key s) log₁ rest = some (rs', log') := by
  rw [group, hroute] at h
  simp only at h
  split at h
  · split at h
    · exact ⟨_, _, h⟩
    · cases h
  · cases h

/-- Routes that can be carried on over nodes: the keys so far and the anchors of the headings to
come are texts, no two of them the same, and the route to carry on has its key. -/
structure Carries (current : Option (Value × String)) (rs : Routes) (inside : Bool)
    (ns : List Node) : Prop where
  filled : Slot.Filled Slot.tops (Heading.blockSlots inside ns)
  current : ∀ route, current = some route → route.1 ∈ Entries.keys rs
  texts : AllTexts (Entries.keys rs ++ anchors (ns.filter (Node.isA .head3)))
  nodup : (Entries.keys rs ++ anchors (ns.filter (Node.isA .head3))).Nodup

section
variable {current : Option (Value × String)} {rs : Routes} {inside : Bool} {n : Node}
  {rest : List Node}

theorem Carries.oldTexts (h : Carries current rs inside rest) : AllTexts (Entries.keys rs) :=
  fun v hv => h.texts v (List.mem_append_left _ hv)

theorem Carries.head3 (h : Carries current rs inside (n :: rest)) (h3 : n.isA .head3 = true) :
    ∃ x, Anchor.ofAttributes? n.attributes = some (.text x) ∧ ∀ s,
      Entries.keys (rs.add (.text x) s) = Entries.keys rs ++ [.text x] ∧
      Carries (some (.text x, n.flatten)) (rs.add (.text x) s) inside rest := by
  have hold := h.oldTexts
  obtain ⟨hfilled, -, htexts, hnodup⟩ := h
  rw [Heading.blockSlots_head3 inside h3] at hfilled
  have hslot : Slot.of true n ∈ Heading.slots true n := by
    rw [Heading.slots, Heading.found_head3 h3]
    exact List.mem_cons_self
  obtain ⟨v, hv⟩ := Option.isSome_iff_exists.1 (hfilled _ (List.mem_append_left _ hslot) rfl)
  have hanchor : Anchor.ofAttributes? n.attributes = some v := hv
  have hfirst : anchors ((n :: rest).filter (Node.isA .head3)) =
      v :: anchors (rest.filter (Node.isA .head3)) := by
    rw [List.filter_cons_of_pos h3, anchors, List.filterMap_cons, hanchor]
    rfl
  rw [hfirst] at htexts hnodup
  obtain ⟨x, rfl⟩ := htexts v (List.mem_append_right _ List.mem_cons_self)
  have hnew : .text x ∉ Entries.keys rs := fun hmem =>
    (List.nodup_append.1 hnodup).2.2 _ hmem _ List.mem_cons_self rfl
  refine ⟨x, hanchor, fun s => ?_⟩
  have hadd := keys_add_of_notMem hold hnew s
  rw [List.append_cons, ← hadd] at htexts hnodup
  refine ⟨hadd, fun t ht => hfilled t (List.mem_append_right _ ht), ?_, htexts, hnodup⟩
  rintro route ⟨⟩
  rw [hadd]
  exact List.mem_append_right _ List.mem_cons_self

/-- Another node brings no key: it ends the route, or goes on with it. -/
theorem Carries.other (h : Carries current rs inside (n :: rest)) (h3 : n.isA .head3 = false) :
    Carries none rs inside rest ∧ ∀ key routeSection,
      routeAfter current n = some (key, routeSection) → ∀ s,
        Entries.keys (rs.add key s) = Entries.keys rs ∧
        Carries (some (key, routeSection)) (rs.add key s) inside rest := by
  have hold := h.oldTexts
  obtain ⟨hfilled, hcurrent, htexts, hnodup⟩ := h
  rw [Heading.blockSlots_other inside h3] at hfilled
  rw [List.filter_cons_of_neg (by simp [h3])] at htexts hnodup
  have hrest : Slot.Filled Slot.tops (Heading.blockSlots inside rest) := fun t ht =>
    hfilled t (List.mem_append_right _ ht)
  refine ⟨⟨hrest, nofun, htexts, hnodup⟩, fun key routeSection hroute s => ?_⟩
  have hsame : current = some (key, routeSection) := by
    rcases routeAfter_other h3 current with heq | heq
    · rw [heq] at hroute
      cases hroute
    · rw [← heq, hroute]
  have hmem : key ∈ Entries.keys rs := hcurrent _ hsame
  obtain ⟨x, rfl⟩ := hold key hmem
  have hadd := keys_add_of_mem hold hmem s
  rw [← hadd] at htexts hnodup hmem
  refine ⟨hadd, hrest, ?_, htexts, hnodup⟩
  rintro route ⟨⟩
  exact hmem

end

/-- Where the headings have texts for anchors, and no two of them the same, the keys of the routes
are these anchors, in order. -/
theorem keys_group {r : Html.Renderer} {current : Option (Value × String)} {rs rs' : Routes}
    {log log' : List Notice} {inside : Bool} {ns : List Node} (hns : Carries current rs inside ns)
    (h : group r current rs log ns = some (rs', log')) :
    Entries.keys rs' = Entries.keys rs ++ anchors (ns.filter (Node.isA .head3)) := by
  induction ns generalizing current rs log with
  | nil =>
    cases h
    exact (List.append_nil _).symm
  | cons n rest ih =>
    cases h3 : n.isA .head3 with
    | true =>
      obtain ⟨x, hanchor, hcarries⟩ := hns.head3 h3
      have hroute : routeAfter current n = some (.text x, n.flatten) := by
        rw [routeAfter_head3 h3, Anchor.ofNode, hanchor]
        rfl
      obtain ⟨s, log₁, h⟩ := group_cons hroute h
      obtain ⟨hadd, hrest⟩ := hcarries s
      rw [ih hrest h, hadd, List.filter_cons_of_pos h3, anchors, anchors, List.filterMap_cons,
        hanchor, List.append_assoc]
      rfl
    | false =>
      obtain ⟨hends, hcarries⟩ := hns.other h3
      rw [List.filter_cons_of_neg (by simp [h3])]
      cases hroute : routeAfter current n with
      | none =>
        rw [group_of_none hroute] at h
        exact ih hends h
      | some route =>
        obtain ⟨key, routeSection⟩ := route
        obtain ⟨s, log₁, h⟩ := group_cons hroute h
        obtain ⟨hadd, hrest⟩ := hcarries key routeSection hroute s
        rw [ih hrest h, hadd]

/-- So it is for the routes of a whole page. -/
theorem keys_group_nil {r : Html.Renderer} {rs : Routes} {log log' : List Notice} {inside : Bool}
    {ns : List Node} (hfilled : Slot.Filled Slot.tops (Heading.blockSlots inside ns))
    (htexts : AllTexts (anchors (ns.filter (Node.isA .head3))))
    (hnodup : (anchors (ns.filter (Node.isA .head3))).Nodup)
    (h : group r none [] log ns = some (rs, log')) :
    Entries.keys rs = anchors (ns.filter (Node.isA .head3)) := by
  have hcarries : Carries none [] inside ns := ⟨hfilled, nofun, htexts, hnodup⟩
  exact keys_group hcarries h

theorem keys_group_page {r : Html.Renderer} {rs : Routes} {log log' : List Notice} {p : Node}
    {ids : Identifiers} (hdistinct : Slot.Distinct ids (Heading.pageSlots p))
    (hfilled : Slot.Filled Slot.tops (Heading.pageSlots p))
    (h : group r none [] log p.children = some (rs, log')) :
    Entries.keys rs = anchors (Heading.tops p) := by
  have hgiven := Heading.given_pageSlots_tops p
  have hnodup : (anchors (Heading.tops p)).Nodup := hgiven ▸ hdistinct.nodup_given Slot.tops
  have htexts : AllTexts (anchors (Heading.tops p)) := by
    intro u hu
    rw [← hgiven] at hu
    obtain ⟨x, -, rfl⟩ := hdistinct.issued u (Slot.mem_given_all_iff.2 (.inl hu))
    exact ⟨x, rfl⟩
  cases p with
  | text s =>
    have hnone : ([] : Routes) = rs := (Prod.mk.inj (Option.some.inj h)).1
    rw [← hnone]
    rfl
  | element name as cs =>
    have hblocks : Slot.Filled Slot.tops (Heading.blockSlots (!Html.Navigation.isHeading name) cs) :=
      fun s hs => hfilled s (List.mem_append_right _ hs)
    exact keys_group_nil hblocks htexts hnodup h

end RouteDocs.Document
