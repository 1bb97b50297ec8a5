import RouteDocs.Proofs.Json.Storable

/-!
# Values as they stand in a text

A text can give a mapping a key more than once, and numbers that the reader does
not take. Such a value is one whose members repeat keys; what is read of it has each
key once, with the last of its values at the place of the first.

Results:
* `isStorable_eq_isInRange`: a value of a file can be stored if its numbers can be read.
* `withoutRepeats_of_isStorable`: what can be stored repeats no key.
* `exists_of_isInRange_eq_false`: what cannot be read is a number of a part.
-/
namespace RouteDocs.Value

mutual

/-- The numbers of a value can be read: no integer is too long, and no number too great. -/
def isInRange : Value → Bool
  | .null => true
  | .bool _ => true
  | .int n => !Json.isTooLong n
  | .real x => !x.isInfinite
  | .text _ => true
  | .list items => areInRange items
  | .mapping members => membersInRange members

/-- The numbers of values can be read. -/
def areInRange : List Value → Bool
  | [] => true
  | v :: rest => v.isInRange && areInRange rest

def membersInRange : List (String × Value) → Bool
  | [] => true
  | (_, v) :: rest => v.isInRange && membersInRange rest

end

mutual

/-- A value with each key of a mapping once: the last of its values counts, at the place of the
first. -/
def withoutRepeats : Value → Value
  | .null => .null
  | .bool b => .bool b
  | .int n => .int n
  | .real x => .real x
  | .text s => .text s
  | .list items => .list (itemsWithoutRepeats items)
  | .mapping members => .mapping (Entries.ofPairs (membersWithoutRepeats members))

/-- The items of a list, in each of which keys come once. -/
def itemsWithoutRepeats : List Value → List Value
  | [] => []
  | v :: rest => v.withoutRepeats :: itemsWithoutRepeats rest

/-- The members of a mapping, in the values of which keys come once. -/
def membersWithoutRepeats : List (String × Value) → List (String × Value)
  | [] => []
  | (k, v) :: rest => (k, v.withoutRepeats) :: membersWithoutRepeats rest

end

theorem areInRange_iff {vs : List Value} :
    areInRange vs = true ↔ ∀ v ∈ vs, v.isInRange = true := by
  induction vs with
  | nil => exact iff_of_true rfl nofun
  | cons v rest ih => rw [areInRange, Bool.and_eq_true, ih, List.forall_mem_cons]

theorem membersInRange_iff {ms : List (String × Value)} :
    membersInRange ms = true ↔ ∀ m ∈ ms, m.2.isInRange = true := by
  induction ms with
  | nil => exact iff_of_true rfl nofun
  | cons m rest ih => rw [membersInRange, Bool.and_eq_true, ih, List.forall_mem_cons]

theorem isInRange_list {items : List Value} :
    (Value.list items).isInRange = true ↔ ∀ v ∈ items, v.isInRange = true := by
  rw [isInRange, areInRange_iff]

theorem isInRange_mapping {ms : List (String × Value)} :
    (Value.mapping ms).isInRange = true ↔ ∀ m ∈ ms, m.2.isInRange = true := by
  rw [isInRange, membersInRange_iff]

theorem itemsWithoutRepeats_eq_map (vs : List Value) :
    itemsWithoutRepeats vs = vs.map withoutRepeats := by
  induction vs with
  | nil => rfl
  | cons v rest ih => rw [itemsWithoutRepeats, ih, List.map_cons]

theorem membersWithoutRepeats_eq_map (ms : List (String × Value)) :
    membersWithoutRepeats ms = ms.map fun (k, v) => (k, v.withoutRepeats) := by
  induction ms with
  | nil => rfl
  | cons m rest ih => rw [membersWithoutRepeats, ih, List.map_cons]

/-- What of a list cannot be read is one of its items. -/
theorem exists_of_isInRange_eq_false {items : List Value}
    (h : (Value.list items).isInRange = false) : ∃ v ∈ items, v.isInRange = false := by
  have hnot : ¬ ∀ v ∈ items, v.isInRange = true := by
    rw [← isInRange_list, h]
    exact Bool.false_ne_true
  simpa using hnot

theorem exists_member_of_isInRange_eq_false {ms : List (String × Value)}
    (h : (Value.mapping ms).isInRange = false) : ∃ m ∈ ms, m.2.isInRange = false := by
  have hnot : ¬ ∀ m ∈ ms, m.2.isInRange = true := by
    rw [← isInRange_mapping, h]
    exact Bool.false_ne_true
  simpa using hnot

/-! ## Values of a file -/

/-- A value of a file can be stored if its numbers can be read. -/
theorem isStorable_eq_isInRange {v : Value} (h : v.IsJson) : v.isStorable = v.isInRange := by
  induction h with
  | null => rfl
  | bool b => rfl
  | int n => rfl
  | text s => rfl
  | @real x hx =>
    cases x with
    | finite negative m e => exact hx
    | infinite negative => cases hx
    | notANumber => cases hx
  | list _ ih =>
    rw [Bool.eq_iff_iff, isStorable_list, isInRange_list]
    exact forall₂_congr fun v hv => by rw [ih v hv]
  | mapping hkeys _ ih =>
    rw [Bool.eq_iff_iff, isStorable_mapping, isInRange_mapping, and_iff_right hkeys]
    exact forall₂_congr fun m hm => by rw [ih m hm]

theorem withoutRepeats_of_isJson {v : Value} (h : v.IsJson) : v.withoutRepeats = v := by
  induction h with
  | null => rfl
  | bool b => rfl
  | int n => rfl
  | text s => rfl
  | real _ => rfl
  | list _ ih =>
    rw [withoutRepeats, itemsWithoutRepeats_eq_map, List.map_congr_left ih, List.map_id']
  | @mapping ms hkeys _ ih =>
    have hsame : ms.map (fun (k, v) => (k, v.withoutRepeats)) = ms := by
      conv_rhs => rw [← List.map_id' ms]
      exact List.map_congr_left fun m hm => Prod.ext rfl (ih m hm)
    rw [withoutRepeats, membersWithoutRepeats_eq_map, hsame, Entries.ofPairs_eq_self hkeys]

theorem withoutRepeats_of_isStorable {v : Value} (h : v.isStorable = true) :
    v.withoutRepeats = v :=
  withoutRepeats_of_isJson (isJson_of_isStorable v h)

end RouteDocs.Value
