import RouteDocs.Proofs.Draft

/-!
# Putting a list in a row of nodes

`put` walks through a row as the search for a missing list does and puts the
list in, with a heading where it needs one, in front of the node that stops the
search. What is put in for one kind either does not stop the search for the
other, or stops it where it would have stopped anyway: so lists of different
kinds can be put in in either order.

Results:
* `put_of_locate`: where the search finds nothing, `put` puts in what the draft puts in.
* `list?_put`: every place keeps its list, and the missing one is there.
* `change_put`: a list of another place can be changed before or after.
* `put_comm`: an input list and an output list can be put in in either order.
* `put_comm_of_ne`: lists of two sections can be put in in either order.
-/
namespace RouteDocs.Row

open Draft (Passed scaffold)

/-- What is put in, once some of the row has been passed. -/
def missing (kind : String) (passed : Passed) : List Node :=
  scaffold kind (passed != .listHeading)

/-- The row with a missing list of a kind put in, and its heading where that is missing too. -/
def put (routeSection kind : String) : Passed → List Node → List Node
  | passed, [] => missing kind passed
  | passed, n :: rest =>
    if stops kind passed n then missing kind passed ++ n :: rest
    else n :: put routeSection kind (pass routeSection kind passed n) rest

section
variable {S kind : String} {passed : Passed} {p : Place} {n : Node} {ns : List Node}

theorem put_cons_stop (h : stops kind passed n = true) (rest : List Node) :
    put S kind passed (n :: rest) = missing kind passed ++ n :: rest := by
  rw [put, if_pos h]

theorem put_cons_pass (h : stops kind passed n = false) (rest : List Node) :
    put S kind passed (n :: rest) = n :: put S kind (pass S kind passed n) rest := by
  rw [put, h, if_neg Bool.false_ne_true]

/-! ## The search through blocks -/

/-- Where the search finds nothing, `put` puts in what the draft puts in at the position found. -/
theorem put_of_locate {position found : Nat} {withHeading : Bool} {bs : List Block}
    (h : Draft.locate S kind passed position bs = .missing found withHeading) :
    ∃ i, found = position + i ∧ put S kind passed (bs.map (·.node)) =
      (bs.map (·.node)).take i ++ scaffold kind withHeading ++ (bs.map (·.node)).drop i := by
  induction bs generalizing passed position with
  | nil =>
    simp only [Draft.locate, Draft.Spot.missing.injEq] at h
    obtain ⟨rfl, rfl⟩ := h
    exact ⟨0, rfl, by simp [put, missing]⟩
  | cons b rest ih =>
    rw [locate_cons] at h
    rw [List.map_cons]
    cases hs : stops kind passed b.node with
    | true =>
      simp only [hs, if_true, Draft.Spot.missing.injEq] at h
      obtain ⟨rfl, rfl⟩ := h
      exact ⟨0, rfl, put_cons_stop hs _⟩
    | false =>
      simp only [hs, Bool.false_eq_true, if_false] at h
      split at h
      · cases h
      · obtain ⟨i, hi, hput⟩ := ih h
        refine ⟨i + 1, by omega, ?_⟩
        rw [put_cons_pass hs, hput]
        rfl

/-- In a section, what is put in comes under the heading of its kind. -/
theorem afterAll_missing (hfits : Fits S kind p ns passed) (h : passed ≠ .nothing) :
    p.afterAll (missing kind passed) = ⟨some S, some kind⟩ := by
  rw [missing, Draft.afterAll_scaffold]
  cases passed with
  | nothing => exact absurd rfl h
  | sectionHeading =>
    have hp : p.routeSection = some S := hfits
    simp [hp]
  | listHeading => simpa [Fits] using hfits

/-! ## The lists of the row -/

theorem list?_scaffold (k p : Place) (kind : String) (withHeading : Bool) :
    list? k p (scaffold kind withHeading) =
      if p.afterAll (scaffold kind withHeading) = k then some Node.newDefinitionList else none := by
  have hlist : Node.newDefinitionList.isA .definitionList = true := rfl
  have hafter : ∀ q : Place, q.after Node.newDefinitionList = q := fun _ => rfl
  cases withHeading with
  | false => simp [scaffold, list?, Place.afterAll, hlist, hafter]
  | true =>
    have hheading : (Node.newHeading 4 kind).isA .definitionList = false := rfl
    simp [scaffold, list?, Place.afterAll, hlist, hafter, hheading]

/-- What stands behind the scaffold reads as it did without it. -/
theorem list?_missing_append (hfits : Fits S kind p ns passed) (h : passed ≠ .nothing)
    {ms : List Node} (hms : StartsWithHeading ms) (k : Place) :
    list? k p (missing kind passed ++ ms) =
      if ⟨some S, some kind⟩ = k then some Node.newDefinitionList else list? k p ms := by
  have hplace := afterAll_missing hfits h
  have hsection : (⟨some S, some kind⟩ : Place).routeSection = p.routeSection :=
    (routeSection_of_fits hfits h).symm
  rw [list?_append, hplace, list?_congr hsection hms, missing, list?_scaffold, ← missing, hplace]
  split <;> rfl

/-- Every place keeps its list, and the missing one is there. -/
theorem list?_put (hfits : Fits S kind p ns passed)
    (hnone : list? ⟨some S, some kind⟩ p ns = none) (k : Place) :
    list? k p (put S kind passed ns) =
      if ⟨some S, some kind⟩ = k then some Node.newDefinitionList else list? k p ns := by
  induction ns generalizing p passed with
  | nil =>
    have hnil : StartsWithHeading [] := nofun
    have h := list?_missing_append hfits (ne_nothing_of_fits hfits) hnil k
    rw [List.append_nil] at h
    exact h
  | cons n rest ih =>
    cases hs : stops kind passed n with
    | true =>
      rw [put_cons_stop hs]
      refine list?_missing_append hfits (ne_nothing_of_stops hs) ?_ k
      rintro m ⟨⟩
      exact heading_of_stops hs
    | false =>
      rw [put_cons_pass hs]
      have hhere : ¬(n.isA .definitionList = true ∧ p = ⟨some S, some kind⟩) := by
        rintro ⟨hn, hp⟩
        rw [list?_cons_of_list hn hp] at hnone
        cases hnone
      rw [list?_cons_of_not hhere] at hnone
      have hrest := ih (fits_pass hfits hs) hnone
      simp only [list?, hrest]
      by_cases hk : ⟨some S, some kind⟩ = k
      · subst hk
        simp [hhere]
      · simp only [if_neg hk]

/-- A change of another place's list does not change what is put in or where. -/
theorem change_put {f : Node → Node} (hf : KeepsKind f) {k : Place}
    (hk : k ≠ ⟨some S, some kind⟩) (hfits : Fits S kind p ns passed) :
    put S kind passed (change k f p ns) = change k f p (put S kind passed ns) := by
  -- what is put in holds no list at `k`, so a change goes past it
  have hmissing {p : Place} {ms ns : List Node} {passed : Passed} (hfits : Fits S kind p ns passed)
      (hne : passed ≠ .nothing) (hms : StartsWithHeading ms) :
      change k f p (missing kind passed ++ ms) = missing kind passed ++ change k f p ms := by
    have hplace := afterAll_missing hfits hne
    have hnone : list? k p (missing kind passed) = none := by
      rw [missing, list?_scaffold, ← missing, hplace, if_neg hk.symm]
    have hsection : (⟨some S, some kind⟩ : Place).routeSection = p.routeSection :=
      (routeSection_of_fits hfits hne).symm
    rw [change_append_of_none f hnone, hplace, change_congr hsection hms]
  induction ns generalizing p passed with
  | nil =>
    have hnil : StartsWithHeading [] := nofun
    have h := hmissing hfits (ne_nothing_of_fits hfits) hnil
    simp only [change, List.append_nil] at h
    exact h.symm
  | cons n rest ih =>
    cases hs : stops kind passed n with
    | true =>
      have hlist := not_list_of_heading (heading_of_stops hs)
      have hstart : StartsWithHeading (n :: rest) := by
        rintro m ⟨⟩
        exact heading_of_stops hs
      rw [put_cons_stop hs, hmissing hfits (ne_nothing_of_stops hs) hstart]
      simp only [change, hlist, Bool.false_eq_true, false_and, if_false]
      exact put_cons_stop hs _
    | false =>
      rw [put_cons_pass hs]
      by_cases hn : n.isA .definitionList = true ∧ p = k
      · have hlist : (f n).isA .definitionList = true := (hf.isA n _).trans hn.1
        rw [change, if_pos hn, change, if_pos hn, put_cons_pass (stops_list hlist),
          pass_list hlist, pass_list hn.1]
      · rw [change, if_neg hn, change, if_neg hn, put_cons_pass hs, ih (fits_pass hfits hs)]

end

/-! ## An input list and an output list -/

section
variable {S T kind other : String} {passed q : Passed} {p : Place} {ns ms : List Node}

theorem put_of_halts (h : ∀ n, ms.head? = some n → stops kind passed n = true) :
    put S kind passed ms = missing kind passed ++ ms := by
  cases ms with
  | nil => simp [put]
  | cons n rest => exact put_cons_stop (h n rfl) rest

theorem flatten_newHeading (level : Int) (s : String) : (Node.newHeading level s).flatten = s := by
  simp [Node.newHeading, Node.flatten, Node.flattenAll]

theorem pass_newHeading (h : other ≠ kind) :
    pass S kind passed (Node.newHeading 4 other) = passed := by
  have h3 : (Node.newHeading 4 other).isA .head3 = false := rfl
  cases passed <;> simp [pass, h3, flatten_newHeading, h]

theorem put_missing_append (hne : other ≠ kind)
    (h : q ≠ .listHeading → stops kind passed (Node.newHeading 4 other) = false) :
    put S kind passed (missing other q ++ ms) = missing other q ++ put S kind passed ms := by
  have hlist : Node.newDefinitionList.isA .definitionList = true := rfl
  have hover (ms : List Node) : put S kind passed (Node.newDefinitionList :: ms) =
      Node.newDefinitionList :: put S kind passed ms := by
    rw [put_cons_pass (stops_list hlist), pass_list hlist]
  by_cases hq : q = .listHeading
  · subst hq
    exact hover ms
  · have hmissing : missing other q = [Node.newHeading 4 other, Node.newDefinitionList] := by
      cases q <;> first | rfl | exact absurd rfl hq
    rw [hmissing]
    show put S kind passed (Node.newHeading 4 other :: Node.newDefinitionList :: ms) = _
    rw [put_cons_pass (h hq), pass_newHeading hne, hover]
    rfl

theorem stops_output_heading (h : passed ≠ .nothing) :
    stops ListKind.input.label passed (Node.newHeading 4 ListKind.output.label) = true := by
  have h4 : (Node.newHeading 4 ListKind.output.label).isA .head4 = true := rfl
  cases passed with
  | nothing => exact absurd rfl h
  | sectionHeading => simp [stops, h4, flatten_newHeading]
  | listHeading => simp [stops, h4]

theorem stops_input_heading :
    stops ListKind.output.label passed (Node.newHeading 4 ListKind.input.label) =
      (passed == .listHeading) := by
  cases passed <;> rfl

theorem not_both_listHeading {k k' : String} (hne : k ≠ k') (h : Fits S k p ns .listHeading)
    (h' : Fits T k' p ns .listHeading) : False := by
  have hplace : (⟨some S, some k⟩ : Place) = ⟨some T, some k'⟩ :=
    Eq.trans (Eq.symm (h : p = _)) (h' : p = _)
  simp only [Place.mk.injEq, Option.some.injEq] at hplace
  exact hne hplace.2

/-- Where both searches stop, the two lists come out in one order. -/
theorem put_comm_of_halts {a b : Passed} (ha : Fits S ListKind.input.label p ns a)
    (hb : Fits T ListKind.output.label p ns b) (hae : a ≠ .nothing) (hbe : b ≠ .nothing)
    (hains : ∀ n, ns.head? = some n → stops ListKind.input.label a n = true)
    (hbins : ∀ n, ns.head? = some n → stops ListKind.output.label b n = true) :
    put S ListKind.input.label a (put T ListKind.output.label b ns) =
      put T ListKind.output.label b (put S ListKind.input.label a ns) := by
  rw [put_of_halts hains, put_of_halts hbins]
  cases b with
  | nothing => exact absurd rfl hbe
  | sectionHeading =>
    -- the input list goes in front of the output heading that is put in
    have hpast : put T ListKind.output.label .sectionHeading (missing ListKind.input.label a ++ ns) =
        missing ListKind.input.label a ++ put T ListKind.output.label .sectionHeading ns :=
      put_missing_append (by decide) fun _ => stops_input_heading
    have hstop : put S ListKind.input.label a (missing ListKind.output.label .sectionHeading ++ ns) =
        missing ListKind.input.label a ++ (missing ListKind.output.label .sectionHeading ++ ns) := by
      apply put_of_halts
      rintro n ⟨⟩
      exact stops_output_heading hae
    rw [hpast, hstop, put_of_halts hbins]
  | listHeading =>
    cases a with
    | nothing => exact absurd rfl hae
    | listHeading => exact (not_both_listHeading (by decide) ha hb).elim
    | sectionHeading =>
      -- the bare output list goes in front of the input heading that is put in
      have hpast : put S ListKind.input.label .sectionHeading
            (missing ListKind.output.label .listHeading ++ ns) =
          missing ListKind.output.label .listHeading ++
            put S ListKind.input.label .sectionHeading ns :=
        put_missing_append (by decide) fun h => absurd rfl h
      have hstop : put T ListKind.output.label .listHeading
            (missing ListKind.input.label .sectionHeading ++ ns) =
          missing ListKind.output.label .listHeading ++
            (missing ListKind.input.label .sectionHeading ++ ns) := by
        apply put_of_halts
        rintro n ⟨⟩
        exact stops_input_heading
      rw [hpast, hstop, put_of_halts hains]

theorem ne_listHeading_of_past {a b : Passed} (ha : stops ListKind.input.label a n = true)
    (hb : stops ListKind.output.label b n = false) : (b == .listHeading) = false := by
  cases b with
  | listHeading =>
    simp only [stops] at hb
    rcases heading_of_stops ha with h | h <;> simp [h] at hb
  | _ => rfl

/-- An input search that goes past what stops an output search has passed no section heading, or
the output search stands under its heading. -/
theorem past_output_heading {a b : Passed} (ha : stops ListKind.input.label a n = false)
    (hb : stops ListKind.output.label b n = true) (hne : b ≠ .listHeading) :
    stops ListKind.input.label a (Node.newHeading 4 ListKind.output.label) = false := by
  have hends : n.endsSection = true := by
    cases b with
    | nothing => cases hb
    | sectionHeading => simpa [stops, ListKind.label] using hb
    | listHeading => exact absurd rfl hne
  cases a with
  | nothing => rfl
  | _ => simp [stops, hends] at ha

/-- An input list and an output list can be put in in either order. -/
theorem put_comm {a b : Passed} (ha : Fits S ListKind.input.label p ns a)
    (hb : Fits T ListKind.output.label p ns b) :
    put S ListKind.input.label a (put T ListKind.output.label b ns) =
      put T ListKind.output.label b (put S ListKind.input.label a ns) := by
  induction ns generalizing p a b with
  | nil =>
    exact put_comm_of_halts ha hb (ne_nothing_of_fits ha) (ne_nothing_of_fits hb) nofun nofun
  | cons n rest ih =>
    cases hsa : stops ListKind.input.label a n with
    | true =>
      cases hsb : stops ListKind.output.label b n with
      | true =>
        refine put_comm_of_halts ha hb (ne_nothing_of_stops hsa) (ne_nothing_of_stops hsb) ?_ ?_
        · rintro m ⟨⟩
          exact hsa
        · rintro m ⟨⟩
          exact hsb
      | false =>
        rw [put_cons_pass hsb, put_cons_stop hsa, put_cons_stop hsa,
          put_missing_append (by decide) fun _ =>
            stops_input_heading.trans (ne_listHeading_of_past hsa hsb),
          put_cons_pass hsb]
    | false =>
      cases hsb : stops ListKind.output.label b n with
      | false =>
        rw [put_cons_pass hsb, put_cons_pass hsa, put_cons_pass hsa, put_cons_pass hsb,
          ih (fits_pass ha hsa) (fits_pass hb hsb)]
      | true =>
        rw [put_cons_pass hsa, put_cons_stop hsb, put_cons_stop hsb,
          put_missing_append (by decide) (past_output_heading hsa hsb), put_cons_pass hsa]

end

/-! ## Lists of two sections -/

section
variable {S T kind kind' : String} {a b : Passed} {p : Place} {n : Node} {ns : List Node}

/-- Before its section, a search goes past whatever was put in. -/
theorem put_nothing_missing_append (S kind other : String) (q : Passed) (ms : List Node) :
    put S kind .nothing (missing other q ++ ms) = missing other q ++ put S kind .nothing ms := by
  have hover : ∀ (n : Node) (ms : List Node), n.isA .head3 = false →
      put S kind .nothing (n :: ms) = n :: put S kind .nothing ms := by
    intro n ms h3
    have hpass : pass S kind .nothing n = .nothing := by
      rw [pass, h3, Bool.false_and, if_neg Bool.false_ne_true]
    have hs : stops kind .nothing n = false := rfl
    rw [put_cons_pass hs, hpass]
  cases q with
  | listHeading => exact hover _ _ rfl
  | nothing | sectionHeading => exact (hover _ _ rfl).trans (congrArg (_ :: ·) (hover _ _ rfl))

/-- A search that has not come to its section does not meet what another puts in before. -/
theorem put_comm_of_stops (hb : stops kind' b n = true) :
    put S kind .nothing (put T kind' b (n :: ns)) = put T kind' b (put S kind .nothing (n :: ns)) := by
  have hs : stops kind .nothing n = false := rfl
  rw [put_cons_stop hb, put_nothing_missing_append, put_cons_pass hs, put_cons_stop hb]

/-- No more than one of two searches has come to its section. -/
theorem nothing_of_ne (hne : S ≠ T) (ha : Fits S kind p ns a) (hb : Fits T kind' p ns b) :
    a = .nothing ∨ b = .nothing := by
  by_cases hna : a = .nothing
  · exact .inl hna
  · refine .inr (Classical.byContradiction fun hnb => hne ?_)
    have hS := routeSection_of_fits ha hna
    rw [routeSection_of_fits hb hnb] at hS
    exact (Option.some.inj hS).symm

/-- Lists of two sections can be put in in either order. -/
theorem put_comm_of_ne (hne : S ≠ T) (ha : Fits S kind p ns a) (hb : Fits T kind' p ns b) :
    put S kind a (put T kind' b ns) = put T kind' b (put S kind a ns) := by
  induction ns generalizing p a b with
  | nil =>
    rcases nothing_of_ne hne ha hb with rfl | rfl
    · exact absurd rfl (ne_nothing_of_fits ha)
    · exact absurd rfl (ne_nothing_of_fits hb)
  | cons n rest ih =>
    have hone := nothing_of_ne hne ha hb
    cases hsa : stops kind a n with
    | true =>
      obtain rfl := hone.resolve_left (ne_nothing_of_stops hsa)
      exact (put_comm_of_stops hsa).symm
    | false =>
      cases hsb : stops kind' b n with
      | true =>
        obtain rfl := hone.resolve_right (ne_nothing_of_stops hsb)
        exact put_comm_of_stops hsb
      | false =>
        rw [put_cons_pass hsb, put_cons_pass hsa, put_cons_pass hsa, put_cons_pass hsb,
          ih (fits_pass ha hsa) (fits_pass hb hsb)]

end

end RouteDocs.Row
