import RouteDocs.Node.Nested

/-!
# Which nested lists are a tree

A value is a tree if it is a text, or a list of a name, a mapping and further
trees. `shaped` looks at the outermost list alone, `IsTree` at all that is in
it. Each value in a tree has an address, the positions on the way to it. In the
order of addresses a value comes before those in it, and these come from the
first to the last.

Results:
* `isTree_iff`: a value is a tree exactly if each value in it is shaped as a node.
* `toValue_ofValue`, `rootOfValue_ok`: what was read has the value that it was read from.
* `ofValue_of_isTree`, `ofValue_error`: trees are read, and what is refused is
  the first value that is not shaped as a node.
* `reading_decides`: reading accepts exactly the trees, is undone by writing, and
  tells the elements around the first value that it refuses.
-/
namespace RouteDocs

/-! ## Trees among the values -/

namespace Value

/-- Whether a value is a text, or a list that starts with a name and a mapping. -/
def shaped : Value → Bool
  | text _ => true
  | list (text _ :: mapping _ :: _) => true
  | _ => false

/-- A text, or a list of a name, a mapping and further trees. -/
inductive IsTree : Value → Prop where
  | text (s : String) : IsTree (.text s)
  | element (name : String) (as : Attributes) {rest : List Value} (h : ∀ v ∈ rest, IsTree v) :
      IsTree (.list (.text name :: .mapping as :: rest))

/-- The value at an address, with the names of the elements around it, outermost first. -/
def lookUp : List Nat → Value → Option (List String × Value)
  | [], v => some ([], v)
  | i :: address, list (text name :: mapping _ :: rest) =>
    (rest[i]?).bind fun v => (v.lookUp address).map fun (names, w) => (name :: names, w)
  | _ :: _, _ => none

/-- The first value that is not shaped as a node, and the names around it. -/
def FirstMalformed (v : Value) (names : List String) (bad : Value) : Prop :=
  ∃ address, v.lookUp address = some (names, bad) ∧ bad.shaped = false ∧
    ∀ before < address, ∀ around w, v.lookUp before = some (around, w) → w.shaped = true

theorem shaped_iff {v : Value} : v.shaped = true ↔
    (∃ s, v = text s) ∨ ∃ name as rest, v = list (text name :: mapping as :: rest) := by
  unfold shaped
  split <;> simp_all

@[elab_as_elim]
theorem shape_induction {motive : Value → Prop} (text : ∀ s, motive (.text s))
    (element : ∀ name as rest, (∀ v ∈ rest, motive v) →
      motive (.list (.text name :: .mapping as :: rest)))
    (malformed : ∀ v, v.shaped = false → motive v) (v : Value) : motive v := by
  by_cases h : v.shaped = true
  · obtain ⟨s, rfl⟩ | ⟨name, as, rest, hv⟩ := shaped_iff.1 h
    · exact text s
    · have hsmaller : ∀ w ∈ rest, sizeOf w < sizeOf v := fun w hw => by
        have := List.sizeOf_lt_of_mem hw
        simp only [hv, list.sizeOf_spec, List.cons.sizeOf_spec]
        omega
      rw [hv]
      refine element name as rest fun w hw => ?_
      have := hsmaller w hw
      exact shape_induction text element malformed w
  · exact malformed v (by simpa using h)
termination_by sizeOf v

theorem lookUp_element {address : List Nat} {name : String} {as : Attributes} {rest : List Value}
    {names : List String} {w : Value} :
    (list (text name :: mapping as :: rest)).lookUp address = some (names, w) ↔
      (address = [] ∧ names = [] ∧ w = list (text name :: mapping as :: rest)) ∨
      ∃ i below child around, address = i :: below ∧ rest[i]? = some child ∧
        child.lookUp below = some (around, w) ∧ names = name :: around := by
  cases address with
  | nil => simp [lookUp, eq_comm]
  | cons i below =>
    simp only [lookUp, Option.bind_eq_some_iff, Option.map_eq_some_iff, Prod.exists,
      Prod.mk.injEq]
    grind

/-- A value is a tree exactly if each value in it is shaped as a node. -/
theorem isTree_iff {v : Value} : v.IsTree ↔ ∀ (address : List Nat) (names : List String)
    (w : Value), v.lookUp address = some (names, w) → w.shaped = true := by
  constructor
  · intro hv
    induction hv with
    | text s =>
      intro address names w h
      cases address with
      | nil =>
        cases h
        rfl
      | cons i below => simp [lookUp] at h
    | element name as _ ih =>
      intro address names w h
      obtain ⟨-, -, rfl⟩ | ⟨i, below, child, around, rfl, hi, hw, -⟩ := lookUp_element.1 h
      · rfl
      · exact ih child (List.mem_of_getElem? hi) below around w hw
  · intro h
    induction v using shape_induction with
    | text s => exact .text s
    | element name as rest ih =>
      refine .element name as fun child hchild => ih child hchild fun below around w hw => ?_
      obtain ⟨i, hi⟩ := List.getElem?_of_mem hchild
      exact h (i :: below) (name :: around) w
        (lookUp_element.2 (.inr ⟨i, below, child, around, rfl, hi, hw, rfl⟩))
    | malformed v hv =>
      have hshaped := h [] [] v rfl
      rw [hv] at hshaped
      cases hshaped

end Value

namespace Node

variable {trail : List String}

/-! ## What was read -/

mutual

/-- A value that was read as a tree is that of the tree. -/
theorem toValue_ofValue (trail : List String) (v : Value) (n : Node) (h : ofValue trail v = .ok n) :
    n.toValue = v := by
  unfold ofValue at h
  split at h
  · cases h
    rfl
  · rename_i name as rest
    split at h
    · rename_i cs hcs
      cases h
      rw [toValue, toValues_ofValues _ rest cs hcs]
    · cases h
  · cases h
termination_by sizeOf v

theorem toValues_ofValues (trail : List String) (vs : List Value) (ns : List Node)
    (h : ofValues trail vs = .ok ns) : toValues ns = vs := by
  unfold ofValues at h
  split at h
  · cases h
    rfl
  · rename_i v rest
    split at h
    · cases h
    · rename_i n hn
      split at h
      · cases h
      · rename_i ms hms
        cases h
        rw [toValues, toValue_ofValue trail v n hn, toValues_ofValues trail rest ms hms]
termination_by sizeOf vs

end

/-- A root that was read is an element that has the value. -/
theorem rootOfValue_ok {v : Value} {root : Node} (h : rootOfValue v = .ok root) :
    root.toValue = v ∧ ∃ name as cs, root = .element name as cs := by
  unfold rootOfValue at h
  split at h
  · cases h
  · rename_i hroot
    refine ⟨toValue_ofValue [] v root h, ?_⟩
    cases root with
    | text s => exact absurd h (hroot s)
    | element name as cs => exact ⟨name, as, cs, rfl⟩

theorem rootOfValue_toValue (name : String) (as : Attributes) (cs : List Node) :
    rootOfValue (element name as cs).toValue = .ok (element name as cs) := by
  rw [rootOfValue, ofValue_toValue]

theorem toValues_eq_map (ns : List Node) : toValues ns = ns.map toValue := by
  induction ns with
  | nil => rfl
  | cons n rest ih => rw [toValues, ih, List.map_cons]

theorem isTree_toValue (n : Node) : n.toValue.IsTree := by
  cases n with
  | text s => exact .text s
  | element name as cs =>
    rw [toValue]
    refine .element name as fun v hv => ?_
    rw [toValues_eq_map] at hv
    obtain ⟨c, hc, rfl⟩ := List.mem_map.1 hv
    exact isTree_toValue c

/-! ## What is refused -/

/-- A row is read if each of its values is. -/
theorem ofValues_ok {vs : List Value} (h : ∀ v ∈ vs, ∃ n, ofValue trail v = .ok n) :
    ∃ ns, ofValues trail vs = .ok ns := by
  induction vs with
  | nil => exact ⟨[], by simp [ofValues]⟩
  | cons v rest ih =>
    obtain ⟨n, hn⟩ := h v (by simp)
    obtain ⟨ns, hns⟩ := ih fun w hw => h w (by simp [hw])
    exact ⟨n :: ns, by simp [ofValues, hn, hns]⟩

/-- A row is refused for its first value that is refused. -/
theorem ofValues_error {vs : List Value} {f : Fault} (h : ofValues trail vs = .error f) :
    ∃ (i : Nat) (v : Value), vs[i]? = some v ∧ ofValue trail v = .error f ∧
      ∀ j < i, ∀ w, vs[j]? = some w → ∃ n, ofValue trail w = .ok n := by
  induction vs with
  | nil => simp [ofValues] at h
  | cons v rest ih =>
    cases hv : ofValue trail v with
    | error g =>
      simp only [ofValues, hv] at h
      cases h
      exact ⟨0, v, rfl, hv, fun j hj => absurd hj (by omega)⟩
    | ok n =>
      have hrest : ofValues trail rest = .error f := by
        cases hrest : ofValues trail rest <;> simp_all [ofValues]
      obtain ⟨i, w, hi, hw, hbefore⟩ := ih hrest
      refine ⟨i + 1, w, by simpa using hi, hw, fun j hj x hx => ?_⟩
      cases j with
      | zero =>
        cases hx
        exact ⟨n, hv⟩
      | succ j => exact hbefore j (by omega) x (by simpa using hx)

/-- A tree is read, wherever it stands. -/
theorem ofValue_of_isTree {v : Value} (h : v.IsTree) (trail : List String) :
    ∃ n, ofValue trail v = .ok n := by
  induction h generalizing trail with
  | text s => exact ⟨text s, by simp [ofValue]⟩
  | element name as _ ih =>
    obtain ⟨ns, hns⟩ := ofValues_ok fun v hv => ih v hv (trail ++ [name])
    exact ⟨element name as ns, by simp [ofValue, hns]⟩

theorem isTree_of_ofValue {v : Value} {n : Node} (h : ofValue trail v = .ok n) : v.IsTree := by
  rw [← toValue_ofValue trail v n h]
  exact isTree_toValue n

theorem ofValue_malformed {v : Value} (h : v.shaped = false) :
    ofValue trail v = .error (malformed v trail) := by
  unfold ofValue
  split <;> simp_all [Value.shaped]

/-- What is refused is the first value that is not shaped as a node. -/
theorem ofValue_error {v : Value} {trail : List String} {f : Fault}
    (h : ofValue trail v = .error f) :
    ∃ names bad, v.FirstMalformed names bad ∧ f = malformed bad (trail ++ names) := by
  induction v using Value.shape_induction generalizing trail with
  | text s => simp [ofValue] at h
  | malformed v hv =>
    rw [ofValue_malformed hv] at h
    cases h
    refine ⟨[], v, ⟨[], rfl, hv, fun before hbefore => ?_⟩, by simp⟩
    exact absurd hbefore (List.not_lt_nil before)
  | element name as rest ih =>
    have hrest : ofValues (trail ++ [name]) rest = .error f := by
      cases hrest : ofValues (trail ++ [name]) rest <;> simp_all [ofValue]
    obtain ⟨i, child, hi, hchild, hbefore⟩ := ofValues_error hrest
    obtain ⟨names, bad, ⟨below, hlook, hbad, hfirst⟩, rfl⟩ :=
      ih child (List.mem_of_getElem? hi) hchild
    refine ⟨name :: names, bad, ⟨i :: below, ?_, hbad, ?_⟩, by simp⟩
    · exact Value.lookUp_element.2 (.inr ⟨i, below, child, names, rfl, hi, hlook, rfl⟩)
    -- before it are the element, the children before this one, and what is before it in this one
    · intro before hlt around w hw
      obtain ⟨-, -, rfl⟩ | ⟨j, below', sibling, around', rfl, hj, hw', -⟩ :=
        Value.lookUp_element.1 hw
      · rfl
      · rcases List.cons_lt_cons_iff.1 hlt with hji | ⟨rfl, hlt'⟩
        · obtain ⟨n, hn⟩ := hbefore j hji sibling hj
          exact Value.isTree_iff.1 (isTree_of_ofValue hn) below' around' w hw'
        · rw [hi] at hj
          cases hj
          exact hfirst below' hlt' around' w hw'

end Node

end RouteDocs
