/-!
# One step after the other

A step reads and changes a state and ends or fails. Two steps one after the other
end with the second, in the state that the first has left; if the first fails, the
second is not taken, and both fail with it.

Results:
* `bind_of_ok`, `bind_of_error`: what two steps do if it is known what the first one does.
* `bind_ok`, `bind_error`: how two steps have ended or failed.
* `bind_eq_ok`, `map_eq_ok`: how two steps without a state have ended.
* `mapM_eq_ok_iff`, `exists_of_mapM_error`: what a step makes of the items of a row, and where it
  fails.
* `FailsAs.bind`, `FailsAs.map`, `FailsAs.mapM`: the causes for which steps fail are those for which
  each of them does.
-/
namespace RouteDocs

variable {ε σ α β : Type} {m : EStateM ε σ α} {f : α → EStateM ε σ β} {s s' s₁ : σ} {e : ε}

/-- What is left of two steps when the first has ended well. -/
theorem bind_of_ok {a : α} (h : m s = .ok a s₁) (f : α → EStateM ε σ β) : (m >>= f) s = f a s₁ := by
  simp only [bind, EStateM.bind, h]

/-- Two steps fail where the first does. -/
theorem bind_of_error (h : m s = .error e s₁) (f : α → EStateM ε σ β) :
    (m >>= f) s = .error e s₁ := by
  simp only [bind, EStateM.bind, h]

/-- What two steps do that end well. -/
theorem bind_ok {v : β} (h : (m >>= f) s = .ok v s') :
    ∃ a s₁, m s = .ok a s₁ ∧ f a s₁ = .ok v s' := by
  cases hm : m s with
  | ok a s₁ => exact ⟨a, s₁, rfl, (bind_of_ok hm f).symm.trans h⟩
  | error e s₁ => cases (bind_of_error hm f).symm.trans h

/-- Where two steps fail. -/
theorem bind_error (h : (m >>= f) s = .error e s') :
    m s = .error e s' ∨ ∃ a s₁, m s = .ok a s₁ ∧ f a s₁ = .error e s' := by
  cases hm : m s with
  | ok a s₁ => exact .inr ⟨a, s₁, rfl, (bind_of_ok hm f).symm.trans h⟩
  | error e₁ s₁ =>
    cases (bind_of_error hm f).symm.trans h
    exact .inl rfl

theorem get_apply (s : σ) : (get : EStateM ε σ σ) s = .ok s s :=
  rfl

theorem modify_apply (f : σ → σ) (s : σ) : (modify f : EStateM ε σ PUnit) s = .ok ⟨⟩ (f s) :=
  rfl

/-! ## Without a state -/

section
variable {m : Except ε α} {f : α → Except ε β} {v : β}

theorem bind_eq_ok (h : m >>= f = .ok v) : ∃ a, m = .ok a ∧ f a = .ok v := by
  cases m with
  | ok a => exact ⟨a, rfl, h⟩
  | error e => cases h

theorem bind_eq_ok_iff : m >>= f = .ok v ↔ ∃ a, m = .ok a ∧ f a = .ok v := by
  refine ⟨bind_eq_ok, ?_⟩
  rintro ⟨a, rfl, h⟩
  exact h

theorem map_eq_ok {g : α → β} (h : m.map g = .ok v) : ∃ a, m = .ok a ∧ g a = v := by
  cases m with
  | ok a => exact ⟨a, rfl, Except.ok.inj h⟩
  | error e => cases h

theorem map_eq_ok_iff {g : α → β} : m.map g = .ok v ↔ ∃ a, m = .ok a ∧ g a = v := by
  refine ⟨map_eq_ok, ?_⟩
  rintro ⟨a, rfl, rfl⟩
  rfl

theorem map_eq_error {g : α → β} (h : m.map g = .error e) : m = .error e := by
  cases m with
  | ok a => cases h
  | error e' =>
    cases h
    rfl

/-- A step that only checks its item maps a row if all its items pass. -/
theorem mapM_eq_ok_iff {p : α → Prop} {g : α → β} (h : ∀ a b, f a = .ok b ↔ p a ∧ b = g a)
    {as : List α} {bs : List β} :
    as.mapM f = .ok bs ↔ (∀ a ∈ as, p a) ∧ bs = as.map g := by
  induction as generalizing bs with
  | nil => simp [pure, Except.pure, eq_comm]
  | cons a as ih =>
    rw [List.mapM_cons, List.forall_mem_cons, List.map_cons]
    constructor
    · intro hmapped
      obtain ⟨b, hb, hmapped⟩ := bind_eq_ok hmapped
      obtain ⟨rest, hrest, hmapped⟩ := bind_eq_ok hmapped
      cases hmapped
      obtain ⟨ha, rfl⟩ := (h a b).1 hb
      obtain ⟨has, rfl⟩ := ih.1 hrest
      exact ⟨⟨ha, has⟩, rfl⟩
    · rintro ⟨⟨ha, has⟩, rfl⟩
      rw [(h a (g a)).2 ⟨ha, rfl⟩, ih.2 ⟨has, rfl⟩]
      rfl

/-- A row that is mapped to itself. -/
theorem mapM_ok (as : List α) : as.mapM (fun a => (.ok a : Except ε α)) = .ok as :=
  (mapM_eq_ok_iff (p := fun _ => True) (g := id) fun _ _ => by simp [eq_comm]).2 (by simp)

/-- A row that is not mapped has an item at which the step fails. -/
theorem exists_of_mapM_error {as : List α} (h : as.mapM f = .error e) :
    ∃ a ∈ as, f a = .error e := by
  induction as with
  | nil => cases h
  | cons a as ih =>
    rw [List.mapM_cons] at h
    cases ha : f a with
    | error e' =>
      rw [ha] at h
      cases h
      exact ⟨a, List.mem_cons_self, ha⟩
    | ok b =>
      rw [ha] at h
      cases has : as.mapM f with
      | ok bs =>
        rw [has] at h
        cases h
      | error e' =>
        rw [has] at h
        cases h
        obtain ⟨x, hx, hfails⟩ := ih has
        exact ⟨x, List.mem_cons_of_mem a hx, hfails⟩

/-! ## Causes of failure -/

/-- A step that fails only for causes of a kind. -/
def FailsAs (allowed : ε → Prop) (m : Except ε α) : Prop :=
  ∀ e, m = .error e → allowed e

variable {allowed : ε → Prop}

theorem FailsAs.ok (a : α) : FailsAs allowed (.ok a : Except ε α) := nofun

theorem FailsAs.error (h : allowed e) : FailsAs allowed (.error e : Except ε α) := by
  rintro e' ⟨⟩
  exact h

theorem FailsAs.bind (hm : FailsAs allowed m) (hf : ∀ a, m = .ok a → FailsAs allowed (f a)) :
    FailsAs allowed (m >>= f) := by
  cases m with
  | ok a => exact hf a rfl
  | error e =>
    rintro e' ⟨⟩
    exact hm e rfl

/-- Of two steps the first of which ends well the second decides. -/
theorem FailsAs.bind_ok {a : α} (hm : m = .ok a) (hf : FailsAs allowed (f a)) :
    FailsAs allowed (m >>= f) := by
  rw [hm]
  exact hf

theorem FailsAs.map (hm : FailsAs allowed m) (g : α → β) : FailsAs allowed (m.map g) :=
  fun e he => hm e (map_eq_error he)

theorem FailsAs.mapM {as : List α} (h : ∀ a ∈ as, FailsAs allowed (f a)) :
    FailsAs allowed (as.mapM f) := by
  intro e he
  obtain ⟨a, ha, hfails⟩ := exists_of_mapM_error he
  exact h a ha e hfails

end

end RouteDocs
