import RouteDocs.Json.Reader
import RouteDocs.Proofs.Entries
import RouteDocs.Proofs.Number.Rounding

/-!
# Values of a file

Not every value can stand in a JSON text: no number is infinite, an integer has
no more digits than the reader takes, and a mapping has each key once. What the
reader makes of a text is such a value: the lists and mappings that it has begun
are, and every token keeps them so.

Results:
* `isStorable_mapping`: when a mapping can be stored.
* `isJson_of_isStorable`: all but the digits of integers.
* `isStorable_put`: one more member.
* `isSound_tokens`: the numbers of a text.
* `isSound_step`, `isStorable_readFrom`: what the reader keeps, and what it makes.
-/
namespace RouteDocs

namespace Binary64

instance (m : ℕ) (e : ℤ) : Decidable (IsCanonical m e) :=
  decidable_of_iff (m < 2 ^ 53 ∧ minExponent ≤ e ∧ e ≤ maxExponent ∧ (2 ^ 52 ≤ m ∨ e = minExponent))
    ⟨fun ⟨hbelow, hleast, hgreatest, hfull⟩ => ⟨hbelow, hleast, hgreatest, hfull⟩,
      fun h => ⟨h.below, h.least, h.greatest, h.full⟩⟩

/-- A number whose mantissa and exponent are those of a double. -/
def isCanonical : Binary64 → Bool
  | finite _ m e => decide (IsCanonical m e)
  | _ => false

theorem ofQuotient_ne_notANumber (negative : Bool) (num den : ℕ) :
    ofQuotient negative num den ≠ notANumber := by
  unfold ofQuotient
  dsimp only
  generalize roundQuotient _ _ = m
  generalize scaleOf num den = e
  generalize (if m = Nat.pow 2 53 then (Nat.pow 2 52, e + 1) else (m, e)) = p
  split_ifs <;> exact nofun

/-- A decimal is read as a number in canonical form, or is too great. -/
theorem ofDecimal_isSound (negative : Bool) (d : ℕ) (k : ℤ) :
    (ofDecimal negative d k).isInfinite = true ∨ (ofDecimal negative d k).isCanonical = true := by
  cases h : ofDecimal negative d k with
  | finite sign m e => exact .inr (decide_eq_true (isCanonical_ofDecimal h))
  | infinite sign => exact .inl rfl
  | notANumber =>
    unfold ofDecimal at h
    dsimp only at h
    split_ifs at h
    exact absurd h (ofQuotient_ne_notANumber _ _ _)

end Binary64

/-! ## Values that can be stored -/

namespace Value

mutual

def isStorable : Value → Bool
  | .null => true
  | .bool _ => true
  | .int n => !Json.isTooLong n
  | .real x => x.isCanonical
  | .text _ => true
  | .list items => areStorable items
  | .mapping members => decide (Entries.keys members).Nodup && membersStorable members

def areStorable : List Value → Bool
  | [] => true
  | v :: rest => v.isStorable && areStorable rest

/-- Members whose values a JSON text can hold. -/
def membersStorable : List (String × Value) → Bool
  | [] => true
  | (_, v) :: rest => v.isStorable && membersStorable rest

end

theorem areStorable_iff {vs : List Value} :
    areStorable vs = true ↔ ∀ v ∈ vs, v.isStorable = true := by
  induction vs with
  | nil => exact iff_of_true rfl nofun
  | cons v rest ih => rw [areStorable, Bool.and_eq_true, ih, List.forall_mem_cons]

theorem membersStorable_iff {ms : List (String × Value)} :
    membersStorable ms = true ↔ ∀ m ∈ ms, m.2.isStorable = true := by
  induction ms with
  | nil => exact iff_of_true rfl nofun
  | cons m rest ih => rw [membersStorable, Bool.and_eq_true, ih, List.forall_mem_cons]

theorem isStorable_list {items : List Value} :
    (Value.list items).isStorable = true ↔ ∀ v ∈ items, v.isStorable = true := by
  rw [isStorable, areStorable_iff]

/-- A mapping can be stored if no key comes twice and all its values can be. -/
theorem isStorable_mapping {ms : List (String × Value)} :
    (Value.mapping ms).isStorable = true ↔
      (Entries.keys ms).Nodup ∧ ∀ m ∈ ms, m.2.isStorable = true := by
  rw [isStorable, Bool.and_eq_true, decide_eq_true_eq, membersStorable_iff]

/-! ## Values with integers of any length -/

/-- A value that a JSON text can hold, but for the digits of its integers. -/
inductive IsJson : Value → Prop where
  | null : IsJson .null
  | bool (b : Bool) : IsJson (.bool b)
  | int (n : Int) : IsJson (.int n)
  | real {x : Binary64} (h : x.isCanonical = true) : IsJson (.real x)
  | text (s : String) : IsJson (.text s)
  | list {items : List Value} (h : ∀ v ∈ items, IsJson v) : IsJson (.list items)
  | mapping {ms : List (String × Value)} (hkeys : (Entries.keys ms).Nodup)
      (h : ∀ m ∈ ms, IsJson m.2) : IsJson (.mapping ms)

theorem isJson_list {items : List Value} : (Value.list items).IsJson ↔ ∀ v ∈ items, v.IsJson :=
  ⟨fun | .list h => h, .list⟩

theorem isJson_mapping {ms : List (String × Value)} :
    (Value.mapping ms).IsJson ↔ (Entries.keys ms).Nodup ∧ ∀ m ∈ ms, m.2.IsJson :=
  ⟨fun | .mapping hkeys h => ⟨hkeys, h⟩, fun ⟨hkeys, h⟩ => .mapping hkeys h⟩

theorem isJson_of_isStorable : ∀ v : Value, v.isStorable = true → v.IsJson
  | .null, _ => .null
  | .bool b, _ => .bool b
  | .int n, _ => .int n
  | .real _, h => .real h
  | .text s, _ => .text s
  | .list _, h => .list fun v hv => isJson_of_isStorable v (isStorable_list.1 h v hv)
  | .mapping _, h =>
    .mapping (isStorable_mapping.1 h).1 fun m hm =>
      isJson_of_isStorable m.2 ((isStorable_mapping.1 h).2 m hm)
termination_by v => sizeOf v
decreasing_by
  · have := List.sizeOf_lt_of_mem hv
    simp_wf
    omega
  · have := List.sizeOf_lt_of_mem hm
    obtain ⟨key, v⟩ := m
    simp only [Prod.mk.sizeOf_spec] at this
    simp_wf
    omega

/-! ## What reading puts together -/

theorem isStorable_put {ms : List (String × Value)} (h : (Value.mapping ms).isStorable = true)
    (key : String) {v : Value} (hv : v.isStorable = true) :
    (Value.mapping (Entries.put ms key v)).isStorable = true := by
  obtain ⟨hkeys, hms⟩ := isStorable_mapping.1 h
  refine isStorable_mapping.2 ⟨Entries.nodup_put hkeys key v, fun m hm => ?_⟩
  rcases Entries.mem_put hm with hm | rfl
  · exact hms m hm
  · exact hv

end Value

/-! ## What is read -/

namespace Json

open Text (Symbol)

/-- A token that is no number, or one that is too great or in canonical form. -/
def Token.isSound : Token → Bool
  | .real x => x.isInfinite || x.isCanonical
  | _ => true

theorem isSound_readNumber? {negative : Bool} {s rest : List Symbol} {t : Token}
    (h : readNumber? negative s = some (t, rest)) : t.isSound = true := by
  unfold readNumber? at h
  simp only [Option.bind_eq_bind, Option.bind_eq_some_iff] at h
  obtain ⟨⟨whole, r₁⟩, -, ⟨fraction, r₂⟩, -, ⟨exponent, r₃⟩, -, h⟩ := h
  split at h
  · cases h
    rfl
  · dsimp only at h
    cases h
    rw [Token.isSound, Bool.or_eq_true]
    exact Binary64.ofDecimal_isSound _ _ _

theorem isSound_readToken? {c : Char} {s rest : List Symbol} {t : Token}
    (h : readToken? c s = some (t, rest)) : t.isSound = true := by
  unfold readToken? at h
  split at h
  case h_11 => exact isSound_readNumber? h
  case h_12 =>
    split at h
    · exact isSound_readNumber? h
    · cases h
  all_goals
    first
    | (cases h; rfl)
    | (obtain ⟨a, -, ha⟩ := Option.map_eq_some_iff.1 h; cases ha; rfl)

/-- The numbers of a text are too great or in canonical form. -/
theorem isSound_tokensWithin (fuel : ℕ) (s : List Symbol) :
    ∀ t ∈ tokensWithin fuel s, t.isSound = true := by
  induction fuel generalizing s with
  | zero =>
    cases s with
    | nil => exact nofun
    | cons x rest =>
      intro t ht
      have hbad : tokensWithin 0 (x :: rest) = [.bad] := by cases x <;> rfl
      rw [hbad, List.mem_singleton] at ht
      rw [ht]
      rfl
  | succ fuel ih =>
    cases s with
    | nil => exact nofun
    | cons x rest =>
      cases x with
      | broken =>
        intro t ht
        have hbad : tokensWithin (fuel + 1) (.broken :: rest) = [.bad] := rfl
        rw [hbad, List.mem_singleton] at ht
        rw [ht]
        rfl
      | char c =>
        rw [tokensWithin]
        split
        · exact ih rest
        · split
          · rename_i t more hread
            exact List.forall_mem_cons.2 ⟨isSound_readToken? hread, ih more⟩
          · intro t ht
            rw [List.mem_singleton.1 ht]
            rfl

theorem isSound_tokens (s : List Symbol) : ∀ t ∈ tokens s, t.isSound = true :=
  isSound_tokensWithin s.length s

/-- What a frame holds can be stored. -/
def Frame.IsSound : Frame → Prop
  | .items before => (Value.list before).isStorable = true
  | .members before _ => (Value.mapping before).isStorable = true

/-- What has been read of the list or mapping at hand can be stored. -/
def Awaiting.IsSound : Awaiting → Prop
  | .value => True
  | .firstItem => True
  | .afterItem items => (Value.list items).isStorable = true
  | .firstKey => True
  | .nextKey members => (Value.mapping members).isStorable = true
  | .colon members _ => (Value.mapping members).isStorable = true
  | .afterMember members => (Value.mapping members).isStorable = true

/-- All that has been read can be stored. -/
def Turn.IsSound : Turn → Prop
  | .go next frames => next.IsSound ∧ ∀ f ∈ frames, f.IsSound
  | .done v => v.isStorable = true
  | .fail _ => True

section
variable {frames : List Frame} {members : Entries String Value} {t : Token}

theorem isSound_settle {v : Value} (hv : v.isStorable = true) (hframes : ∀ f ∈ frames, f.IsSound) :
    (settle v frames).IsSound := by
  cases frames with
  | nil => exact hv
  | cons f frames =>
    obtain ⟨hf, hrest⟩ := List.forall_mem_cons.1 hframes
    cases f with
    | items before =>
      refine ⟨Value.isStorable_list.2 (List.forall_mem_cons.2 ⟨hv, ?_⟩), hrest⟩
      exact Value.isStorable_list.1 hf
    | members before key => exact ⟨Value.isStorable_put hf key hv, hrest⟩

theorem isSound_startValue (ht : t.isSound = true) (hframes : ∀ f ∈ frames, f.IsSound) :
    (startValue frames t).IsSound := by
  cases t with
  | null => exact isSound_settle rfl hframes
  | bool b => exact isSound_settle rfl hframes
  | int n =>
    rw [startValue]
    split
    · trivial
    · rename_i hshort
      refine isSound_settle ?_ hframes
      rw [Value.isStorable, Bool.not_eq_true', Bool.eq_false_iff]
      exact hshort
  | real x =>
    cases x with
    | infinite negative => trivial
    | finite negative m e => exact isSound_settle ht hframes
    | notANumber => cases ht
  | text s =>
    cases s with
    | none => trivial
    | some s => exact isSound_settle rfl hframes
  | openList => exact ⟨trivial, hframes⟩
  | openMapping => exact ⟨trivial, hframes⟩
  | closeList => trivial
  | closeMapping => trivial
  | comma => trivial
  | colon => trivial
  | bad => trivial

theorem isSound_startKey (hmembers : (Value.mapping members).isStorable = true)
    (hframes : ∀ f ∈ frames, f.IsSound) : (startKey members frames t).IsSound := by
  unfold startKey
  split
  · exact ⟨hmembers, hframes⟩
  · trivial
  · trivial

/-- A token keeps what has been read storable. -/
theorem isSound_step (ht : t.isSound = true) (hframes : ∀ f ∈ frames, f.IsSound)
    {next : Awaiting} (hnext : next.IsSound) : (step frames t next).IsSound := by
  have hnone : (Value.mapping []).isStorable = true := rfl
  unfold step
  split
  · exact isSound_startValue ht hframes
  · split
    · exact isSound_settle rfl hframes
    · exact isSound_startValue ht (List.forall_mem_cons.2 ⟨rfl, hframes⟩)
  · split
    · exact ⟨trivial, List.forall_mem_cons.2 ⟨hnext, hframes⟩⟩
    · refine isSound_settle (Value.isStorable_list.2 fun v hv => ?_) hframes
      exact Value.isStorable_list.1 hnext v (List.mem_reverse.1 hv)
    · trivial
  · split
    · exact isSound_settle hnone hframes
    · exact isSound_startKey hnone hframes
  · exact isSound_startKey hnext hframes
  · split
    · exact ⟨trivial, List.forall_mem_cons.2 ⟨hnext, hframes⟩⟩
    · trivial
  · split
    · exact ⟨hnext, hframes⟩
    · exact isSound_settle hnext hframes
    · trivial

end

/-- A value that is read can be stored, and the tokens after it are sound if all are. -/
theorem isStorable_readFrom {ts rest : List Token} {next : Awaiting} {frames : List Frame} {v : Value}
    (hts : ∀ t ∈ ts, t.isSound = true) (hnext : next.IsSound) (hframes : ∀ f ∈ frames, f.IsSound)
    (h : readFrom next frames ts = .ok (v, rest)) :
    v.isStorable = true ∧ ∀ t ∈ rest, t.isSound = true := by
  induction ts generalizing next frames with
  | nil => cases h
  | cons t ts ih =>
    obtain ⟨ht, hrest⟩ := List.forall_mem_cons.1 hts
    have hturn := isSound_step ht hframes hnext
    rw [readFrom] at h
    split at h
    · rename_i next' frames' hgo
      rw [hgo] at hturn
      exact ih hrest hturn.1 hturn.2 h
    · rename_i v' hdone
      rw [hdone] at hturn
      cases h
      exact ⟨hturn, hrest⟩
    · cases h

theorem isStorable_readValue {ts rest : List Token} {v : Value} (hts : ∀ t ∈ ts, t.isSound = true)
    (h : readValue ts = .ok (v, rest)) : v.isStorable = true ∧ ∀ t ∈ rest, t.isSound = true := by
  have hnext : Awaiting.value.IsSound := trivial
  exact isStorable_readFrom hts hnext (fun _ hf => absurd hf List.not_mem_nil) h

end Json
end RouteDocs
