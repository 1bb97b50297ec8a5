import RouteDocs.Proofs.Identifier

/-!
# Handing out identifiers

A text can have any of a row of identifiers: its own, and then the numbered forms
of it. It is given the first that is not in use. Which one that is depends on the
identifiers in use as a set: so an identifier that is given out early makes a
difference to the later ones exactly if one of them would have been it.

Results:
* `fresh_eq_choice`: a text is given the first of its choices that is not in use.
* `fresh_notMem`: what is given is not in use.
* `fresh_eq_of_subset`: more identifiers in use leave a text the one it would have, unless that
  is among them.
* `isAllowed_of_mem_fresh`: the characters of what is given.
* `Proper.allocate`: a pool of proper identifiers hands out proper ones.
-/
namespace RouteDocs.Identifiers

/-! ## Choices -/

/-- The identifiers that a text can have, the best first. -/
def choice (base : String) : Nat → String
  | 0 => base
  | k + 1 => base ++ toString k

theorem toString_injective {j k : Nat} (h : toString j = toString k) : j = k := by
  have hdigits : Nat.toDigits 10 j = Nat.toDigits 10 k := by
    simpa only [Nat.toString_eq_repr, Nat.toList_repr] using congrArg String.toList h
  simpa using congrArg (fun digits => Nat.ofDigitChars 10 digits 0) hdigits

/-- There are more choices than identifiers in use. -/
theorem exists_free (issued : List String) (base : String) :
    ∃ k < issued.length + 1, base ++ toString k ∉ issued := by
  refine Classical.byContradiction fun h => ?_
  have hall : ∀ k < issued.length + 1, base ++ toString k ∈ issued := fun k hk =>
    Classical.byContradiction fun hfree => h ⟨k, hk, hfree⟩
  have hnodup : ((List.range (issued.length + 1)).map fun k => base ++ toString k).Nodup := by
    refine List.pairwise_map.2 (List.nodup_range.imp fun hne heq => hne ?_)
    exact toString_injective ((String.append_right_inj base).1 heq)
  have hsub : ((List.range (issued.length + 1)).map fun k => base ++ toString k) ⊆ issued := by
    intro x hx
    obtain ⟨k, hk, rfl⟩ := List.mem_map.1 hx
    exact hall k (List.mem_range.1 hk)
  have hlength := hnodup.length_le_of_subset hsub
  rw [List.length_map, List.length_range] at hlength
  omega

/-- A text is given the first of its choices that is not in use. -/
theorem fresh_eq_choice (ids : Identifiers) (s : String) :
    ∃ k, ids.fresh s = choice (ids.normalize s) k ∧ choice (ids.normalize s) k ∉ ids.issued ∧
      ∀ j < k, choice (ids.normalize s) j ∈ ids.issued := by
  by_cases hbase : ids.normalize s ∈ ids.issued
  · obtain ⟨k, hk, hfree⟩ := exists_free ids.issued (ids.normalize s)
    have hsome : ((List.range (ids.issued.length + 1)).find? fun k =>
        !ids.issued.contains (ids.normalize s ++ toString k)).isSome := by
      rw [List.find?_isSome]
      exact ⟨k, List.mem_range.2 hk, by simpa using hfree⟩
    obtain ⟨k, hk⟩ := Option.isSome_iff_exists.1 hsome
    have hfresh : ids.fresh s = choice (ids.normalize s) (k + 1) := by
      rw [fresh, if_pos (List.contains_iff_mem.2 hbase), numbered, hk]
      rfl
    obtain ⟨hfree, -, hbefore⟩ := List.find?_range_eq_some.1 hk
    refine ⟨k + 1, hfresh, by simpa [choice] using hfree, fun j hj => ?_⟩
    cases j with
    | zero => exact hbase
    | succ j => simpa [choice] using hbefore j (Nat.lt_of_succ_lt_succ hj)
  · refine ⟨0, ?_, hbase, fun j hj => absurd hj (Nat.not_lt_zero j)⟩
    rw [fresh, if_neg (by rwa [List.contains_iff_mem])]
    rfl

theorem fresh_notMem (ids : Identifiers) (s : String) : ids.fresh s ∉ ids.issued := by
  obtain ⟨k, hk, hfree, -⟩ := ids.fresh_eq_choice s
  rwa [hk]

/-- More identifiers in use leave a text the one it would have, unless that is among them. -/
theorem fresh_eq_of_subset {ids more : Identifiers} {s : String}
    (hfallback : more.fallback = ids.fallback) (hsub : ids.issued ⊆ more.issued)
    (hfree : ids.fresh s ∉ more.issued) : more.fresh s = ids.fresh s := by
  obtain ⟨k, hk, -, hbefore⟩ := ids.fresh_eq_choice s
  obtain ⟨k', hk', hfree', hbefore'⟩ := more.fresh_eq_choice s
  have hsame : more.normalize s = ids.normalize s := by rw [normalize, normalize, hfallback]
  rw [hsame] at hk' hfree' hbefore'
  have hle : k ≤ k' := Nat.le_of_not_lt fun hlt => hfree' (hsub (hbefore k' hlt))
  have hge : k' ≤ k := Nat.le_of_not_lt fun hlt => hfree (hk ▸ hbefore' k hlt)
  rw [hk, hk', Nat.le_antisymm hge hle]

theorem mem_insert {issued : List String} {x y : String} :
    x ∈ insert issued y ↔ x ∈ issued ∨ x = y := by
  rw [insert]
  split
  · rename_i h
    rw [List.contains_iff_mem] at h
    constructor
    · exact .inl
    · rintro (hx | rfl)
      · exact hx
      · exact h
  · rw [List.mem_append, List.mem_singleton]

theorem mem_issued_allocate {ids : Identifiers} {s x : String} :
    x ∈ (ids.allocate s).2.issued ↔ x ∈ ids.issued ∨ x = ids.fresh s :=
  mem_insert

theorem issued_allocate_subset {ids more : Identifiers} {s t : String}
    (hsub : ids.issued ⊆ more.issued) (hfresh : more.fresh s = ids.fresh t) :
    (ids.allocate t).2.issued ⊆ (more.allocate s).2.issued := by
  intro x hx
  rw [mem_issued_allocate] at hx ⊢
  rw [hfresh]
  exact hx.imp (fun hx => hsub hx) id

theorem fallback_allocate (ids : Identifiers) (s : String) :
    (ids.allocate s).2.fallback = ids.fallback := rfl

theorem mem_foldl_insert {seed issued : List String} {x : String} :
    x ∈ seed.foldl insert issued ↔ x ∈ issued ∨ x ∈ seed := by
  induction seed generalizing issued with
  | nil => simp
  | cons y seed ih => rw [List.foldl_cons, ih, mem_insert, List.mem_cons, or_assoc]

theorem mem_issued_ofSeed {seed : List String} {fallback x : String} :
    x ∈ (ofSeed seed fallback).issued ↔ x ∈ seed := by
  rw [ofSeed, mem_foldl_insert]
  simp

/-! ## The form of what is handed out -/

/-- A pool of well-formed identifiers, with a letter to fall back on. -/
structure Proper (ids : Identifiers) : Prop where
  fallback : ∃ c ∈ ids.fallback.toList, Identifier.isLetter c = true
  issued : ∀ x ∈ ids.issued, Identifier.isWellFormed x = true

theorem isAllowed_of_mem_toString {k : Nat} {c : Char} (h : c ∈ (toString k).toList) :
    Identifier.isAllowed c = true := by
  rw [Nat.toString_eq_repr, Nat.toList_repr] at h
  have hdigit : c.isDigit = true := Nat.isDigit_of_mem_toDigits (by decide) (by decide) h
  rw [Identifier.isAllowed, Char.isAlphanum, hdigit, Bool.or_true]
  rfl

/-- Whatever a pool falls back on, it hands out only characters that an identifier may hold. -/
theorem isAllowed_of_mem_fresh {ids : Identifiers} {s : String} {c : Char}
    (h : c ∈ (ids.fresh s).toList) : Identifier.isAllowed c = true := by
  obtain ⟨k, hk, -⟩ := ids.fresh_eq_choice s
  rw [hk] at h
  cases k with
  | zero => exact Identifier.isAllowed_of_mem_normalize h
  | succ k =>
    rw [choice, String.toList_append, List.mem_append] at h
    exact h.elim Identifier.isAllowed_of_mem_normalize isAllowed_of_mem_toString

theorem isWellFormed_choice {base : String} (h : Identifier.isWellFormed base = true) (k : Nat) :
    Identifier.isWellFormed (choice base k) = true := by
  cases k with
  | zero => exact h
  | succ k => exact Identifier.isWellFormed_append h fun d => isAllowed_of_mem_toString

theorem Proper.isWellFormed_fresh {ids : Identifiers} (h : ids.Proper) (s : String) :
    Identifier.isWellFormed (ids.fresh s) = true := by
  obtain ⟨k, hk, -⟩ := ids.fresh_eq_choice s
  rw [hk]
  exact isWellFormed_choice (Identifier.isWellFormed_normalize h.fallback s) k

/-- What is handed out is well-formed. -/
theorem Proper.allocate {ids : Identifiers} (h : ids.Proper) (s : String) :
    (ids.allocate s).2.Proper := by
  refine ⟨h.fallback, fun x hx => ?_⟩
  rcases mem_issued_allocate.1 hx with hx | rfl
  · exact h.issued x hx
  · exact h.isWellFormed_fresh s

theorem Proper.ofSeed {seed : List String} {fallback : String}
    (hfallback : ∃ c ∈ fallback.toList, Identifier.isLetter c = true)
    (hseed : ∀ x ∈ seed, Identifier.isWellFormed x = true) : (ofSeed seed fallback).Proper :=
  ⟨hfallback, fun x hx => hseed x (mem_issued_ofSeed.1 hx)⟩

end RouteDocs.Identifiers
