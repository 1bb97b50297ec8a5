import RouteDocs.Anchor

/-!
# Anchors of headings

Results:
* `ofAttributes?_put`: the anchor of attributes that were given one.
* `ensureNode_of_none`: a heading without an anchor gets the identifier handed out for its text.
* `ensure_eq_of_anchor`: attributes that were given an anchor are known by it.
-/
namespace RouteDocs.Anchor

theorem ofAttributes?_put (as : Attributes) (id : String) :
    ofAttributes? (Entries.put as key (.text id)) = some (.text id) := by
  rw [ofAttributes?, Entries.get?_put, if_pos rfl]

theorem ensureNode_element (ids : Identifiers) (name : String) (as : Attributes) (cs : List Node) :
    ensureNode ids (.element name as cs) =
      (.element name (ensure ids (Node.flattenAll cs) as).1 cs,
        (ensure ids (Node.flattenAll cs) as).2) :=
  rfl

theorem ensureNode_of_none (ids : Identifiers) {name : String} {as : Attributes} {cs : List Node}
    (h : ofAttributes? as = none) :
    ensureNode ids (.element name as cs) =
      (.element name (Entries.put as key (.text (ids.fresh (Node.flattenAll cs)))) cs,
        (ids.allocate (Node.flattenAll cs)).2) := by
  rw [ensureNode, ensure, h]
  rfl

theorem ensure_of_none (ids : Identifiers) (label : String) {as : Attributes}
    (h : ofAttributes? as = none) :
    ensure ids label as = (Entries.put as key (.text (ids.fresh label)), (ids.allocate label).2) := by
  rw [ensure, h]
  rfl

theorem ensure_of_some (ids : Identifiers) (label : String) {as : Attributes} {v : Value}
    (h : ofAttributes? as = some v) : ensure ids label as = (as, ids) := by
  rw [ensure, h]

theorem get?_ensure (ids : Identifiers) (label : String) (as : Attributes) {k : String}
    (hk : key ≠ k) : Entries.get? (ensure ids label as).1 k = Entries.get? as k := by
  cases h : ofAttributes? as with
  | none => rw [ensure_of_none ids label h, Entries.get?_put, if_neg hk]
  | some v => rw [ensure_of_some ids label h]

/-- Attributes that were given an anchor are known by it. -/
theorem ensure_eq_of_anchor {ids ids' : Identifiers} {label label' : String} {as : Attributes}
    (heq : ofAttributes? (ensure ids label as).1 = ofAttributes? (ensure ids' label' as).1) :
    (ensure ids label as).1 = (ensure ids' label' as).1 := by
  cases h : ofAttributes? as with
  | none =>
    rw [ensure_of_none ids label h, ensure_of_none ids' label' h] at heq ⊢
    rw [ofAttributes?_put, ofAttributes?_put, Option.some.injEq, Value.text.injEq] at heq
    rw [heq]
  | some v => rw [ensure_of_some ids label h, ensure_of_some ids' label' h]

end RouteDocs.Anchor
