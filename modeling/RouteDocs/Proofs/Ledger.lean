import RouteDocs.Proofs.Heading.Tree
import RouteDocs.Proofs.Preparation

/-!
# Who holds which identifier

A ledger says, for every place where something stands that can have an identifier,
what stands there and what it holds. When identifiers are handed out the ledger
grows: what stands somewhere stays, what is held is kept, and what is newly held
was in use nowhere, is held at one place only, and is in use from then on. To
anchor the headings found in a tree makes the ledger of the tree grow.

Results:
* `Ledger.Grows.trans`: growing is composed of steps.
* `Ledger.grows_of_give`, `Ledger.Grows.embed`: an identifier is handed out, and a part
  of a ledger grows.
* `grows_anchorFound`, `grows_anchorFoundAll`: anchoring makes the ledger of a tree grow.
-/
namespace RouteDocs

/-- What stands at places and what it holds, with the identifiers in use. -/
structure Ledger (α : Type) where
  entry : α → Option (String × Option Value)
  ids : Identifiers

namespace Ledger

variable {α β : Type} {l m k : Ledger α}

def held (l : Ledger α) (a : α) : Option Value :=
  (l.entry a).bind (·.2)

/-- A place where nothing was held and an identifier is held now. -/
structure New (l m : Ledger α) (a : α) (x : String) : Prop where
  before : l.held a = none
  after : m.held a = some (.text x)

/-- One ledger is another with identifiers handed out. -/
structure Grows (l m : Ledger α) : Prop where
  stays : ∀ {a title v}, l.entry a = some (title, v) → ∃ w, m.entry a = some (title, w)
  kept : ∀ a, m.held a = l.held a ∨ ∃ x, New l m a x
  unused : ∀ {a x}, New l m a x → x ∉ l.ids.issued
  apart : ∀ {a b x}, New l m a x → New l m b x → a = b
  issued : ∀ {x}, x ∈ m.ids.issued ↔ x ∈ l.ids.issued ∨ ∃ a, New l m a x

theorem held_congr {a : α} (h : m.entry a = l.entry a) : m.held a = l.held a := by
  rw [held, h, held]

theorem New.held_ne {a : α} {x : String} (h : New l m a x) : m.held a ≠ l.held a := by
  rw [h.before, h.after]
  nofun

/-- Where something new comes to stand that holds nothing, nothing is handed out. -/
theorem grows_of_held_eq (hids : m.ids = l.ids)
    (hstays : ∀ {a e}, l.entry a = some e → m.entry a = some e)
    (hheld : ∀ a, m.held a = l.held a) : Grows l m := by
  have hnone : ∀ a x, ¬ New l m a x := fun a _ hnew => hnew.held_ne (hheld a)
  constructor
  · exact fun h => ⟨_, hstays h⟩
  · exact fun a => .inl (hheld a)
  · exact fun h => absurd h (hnone _ _)
  · exact fun h => absurd h (hnone _ _)
  · intro x
    rw [hids]
    simp [hnone]

theorem Grows.refl (l : Ledger α) : Grows l l :=
  grows_of_held_eq rfl id fun _ => rfl

namespace Grows

theorem held_of_some (h : Grows l m) {a : α} {v : Value} (hv : l.held a = some v) :
    m.held a = some v := by
  rcases h.kept a with heq | ⟨x, hnew⟩
  · exact heq.trans hv
  · rw [hnew.before] at hv
    cases hv

/-- In two steps an identifier is handed out in the first or in the second. -/
theorem new_iff (h : Grows l m) (h' : Grows m k) {a : α} {x : String} :
    New l k a x ↔ New l m a x ∨ New m k a x := by
  constructor
  · intro hnew
    rcases h'.kept a with heq | ⟨y, hy⟩
    · exact .inl ⟨hnew.before, heq ▸ hnew.after⟩
    · have hx := hy.after.symm.trans hnew.after
      obtain rfl : y = x := by simpa using hx
      exact .inr hy
  · rintro (hnew | hnew)
    · exact ⟨hnew.before, h'.held_of_some hnew.after⟩
    · refine ⟨?_, hnew.after⟩
      rcases h.kept a with heq | ⟨y, hy⟩
      · exact heq ▸ hnew.before
      · exact hy.before

/-- Growing is composed of steps. -/
theorem trans (h : Grows l m) (h' : Grows m k) : Grows l k := by
  have hlater : ∀ {x}, x ∉ m.ids.issued → x ∉ l.ids.issued := fun hx hl =>
    hx (h.issued.2 (.inl hl))
  have hissued : ∀ {a x}, New l m a x → x ∈ m.ids.issued := fun hnew =>
    h.issued.2 (.inr ⟨_, hnew⟩)
  constructor
  · intro a title v hentry
    obtain ⟨w, hw⟩ := h.stays hentry
    exact h'.stays hw
  · intro a
    rcases h'.kept a with heq | ⟨x, hnew⟩
    · refine (h.kept a).imp (fun heq' => heq.trans heq') ?_
      rintro ⟨x, hnew⟩
      exact ⟨x, (h.new_iff h').2 (.inl hnew)⟩
    · exact .inr ⟨x, (h.new_iff h').2 (.inr hnew)⟩
  · intro a x hnew
    rcases (h.new_iff h').1 hnew with hnew | hnew
    · exact h.unused hnew
    · exact hlater (h'.unused hnew)
  · intro a b x ha hb
    rcases (h.new_iff h').1 ha with ha | ha <;> rcases (h.new_iff h').1 hb with hb | hb
    · exact h.apart ha hb
    · exact absurd (hissued ha) (h'.unused hb)
    · exact absurd (hissued hb) (h'.unused ha)
    · exact h'.apart ha hb
  · intro x
    simp only [h.new_iff h', exists_or]
    rw [h'.issued, h.issued, or_assoc]

/-- Where a part of a ledger grows and the remainder is as it was, the whole grows. -/
theorem embed {L M : Ledger β} (h : Grows l m) (place : α → β)
    (hids : L.ids = l.ids) (hids' : M.ids = m.ids)
    (hbefore : ∀ a, L.entry (place a) = l.entry a) (hafter : ∀ a, M.entry (place a) = m.entry a)
    (hrest : ∀ b, (∀ a, b ≠ place a) → M.entry b = L.entry b) : Grows L M := by
  have hpart : ∀ {a x}, New L M (place a) x ↔ New l m a x := by
    intro a x
    have hL : L.held (place a) = l.held a := by rw [held, hbefore, held]
    have hM : M.held (place a) = m.held a := by rw [held, hafter, held]
    exact ⟨fun ⟨hb, ha⟩ => ⟨hL ▸ hb, hM ▸ ha⟩, fun ⟨hb, ha⟩ => ⟨hL.trans hb, hM.trans ha⟩⟩
  have hplace : ∀ {b x}, New L M b x → ∃ a, b = place a ∧ New l m a x := by
    intro b x hnew
    by_cases hb : ∃ a, b = place a
    · obtain ⟨a, rfl⟩ := hb
      exact ⟨a, rfl, hpart.1 hnew⟩
    · exact absurd (held_congr (hrest b fun a ha => hb ⟨a, ha⟩)) hnew.held_ne
  constructor
  · intro b title v hentry
    by_cases hb : ∃ a, b = place a
    · obtain ⟨a, rfl⟩ := hb
      rw [hbefore] at hentry
      rw [hafter]
      exact h.stays hentry
    · exact ⟨v, (hrest b fun a ha => hb ⟨a, ha⟩).trans hentry⟩
  · intro b
    by_cases hb : ∃ a, b = place a
    · obtain ⟨a, rfl⟩ := hb
      rcases h.kept a with heq | ⟨x, hnew⟩
      · left
        rw [held, held, hbefore, hafter]
        exact heq
      · exact .inr ⟨x, hpart.2 hnew⟩
    · exact .inl (held_congr (hrest b fun a ha => hb ⟨a, ha⟩))
  · intro b x hnew
    obtain ⟨a, rfl, hpart⟩ := hplace hnew
    exact hids ▸ h.unused hpart
  · intro b c x hb hc
    obtain ⟨a, rfl, ha⟩ := hplace hb
    obtain ⟨a', rfl, ha'⟩ := hplace hc
    exact congrArg place (h.apart ha ha')
  · intro x
    rw [hids, hids', h.issued]
    refine or_congr_right ⟨?_, ?_⟩
    · rintro ⟨a, hnew⟩
      exact ⟨place a, hpart.2 hnew⟩
    · rintro ⟨b, hnew⟩
      obtain ⟨a, -, hnew⟩ := hplace hnew
      exact ⟨a, hnew⟩

end Grows

/-- An identifier is handed out to one place. -/
theorem grows_of_give (a : α) {title label : String} (hids : m.ids = (l.ids.allocate label).2)
    (hbefore : l.entry a = some (title, none))
    (hafter : m.entry a = some (title, some (.text (l.ids.fresh label))))
    (hrest : ∀ b, b ≠ a → m.entry b = l.entry b) : Grows l m := by
  have hgiven : New l m a (l.ids.fresh label) := by
    constructor
    · rw [held, hbefore]
      rfl
    · rw [held, hafter]
      rfl
  have hone : ∀ {b x}, New l m b x → b = a ∧ x = l.ids.fresh label := by
    intro b x hnew
    obtain rfl : b = a := Classical.byContradiction fun hb => hnew.held_ne (held_congr (hrest b hb))
    have hx := hnew.after.symm.trans hgiven.after
    exact ⟨rfl, by simpa using hx⟩
  constructor
  · intro b t v hentry
    by_cases hb : b = a
    · subst hb
      rw [hbefore] at hentry
      cases hentry
      exact ⟨_, hafter⟩
    · exact ⟨v, (hrest b hb).trans hentry⟩
  · intro b
    by_cases hb : b = a
    · exact .inr ⟨_, hb ▸ hgiven⟩
    · exact .inl (held_congr (hrest b hb))
  · intro b x hnew
    obtain ⟨-, rfl⟩ := hone hnew
    exact l.ids.fresh_notMem label
  · intro b c x hb hc
    exact (hone hb).1.trans (hone hc).1.symm
  · intro x
    rw [hids, Identifiers.mem_issued_allocate]
    refine or_congr_right ⟨?_, ?_⟩
    · rintro rfl
      exact ⟨a, hgiven⟩
    · rintro ⟨b, hnew⟩
      exact (hone hnew).2

end Ledger

/-! ## The ledger of a tree -/

namespace Node

/-- The entry of a node: its text and its anchor, if it is a heading of a route. -/
def entry (n : Node) : Option (String × Option Value) :=
  if n.isA .head3 then some (n.flatten, Anchor.ofAttributes? n.attributes) else none

def entryAt (n : Node) (path : List Nat) : Option (String × Option Value) :=
  (n.at? path).bind entry

/-- The entry of the node at an address in one of a row of trees. -/
def entryIn (ns : List Node) (place : Nat × List Nat) : Option (String × Option Value) :=
  ns[place.1]?.bind (·.entryAt place.2)

theorem entryAt_nil (n : Node) : n.entryAt [] = n.entry :=
  rfl

theorem entryAt_cons (n : Node) (i : Nat) (path : List Nat) :
    n.entryAt (i :: path) = entryIn n.children (i, path) := by
  simp only [entryAt, entryIn, at?, Option.bind_assoc]

theorem entry_of_not_head3 {n : Node} (h3 : n.isA .head3 = false) : n.entry = none := by
  rw [entry, h3]
  rfl

theorem entry_of_head3 {n : Node} (h3 : n.isA .head3 = true) :
    n.entry = some (n.flatten, Anchor.ofAttributes? n.attributes) :=
  if_pos h3

theorem held_of_isAbsent {n : Node} (h : Anchor.isAbsent n = true) (path : List Nat) :
    (n.entryAt path).bind (·.2) = none := by
  induction path generalizing n with
  | nil =>
    rw [entryAt_nil, entry]
    split
    · exact Anchor.ofAttributes?_of_isAbsent h
    · rfl
  | cons i path ih =>
    rw [entryAt_cons, entryIn]
    cases hi : n.children[i]? with
    | none => rfl
    | some c =>
      cases n with
      | text s => simp [children] at hi
      | element name as cs =>
        have hcs := Anchor.isAbsentAll_iff.1 (Anchor.isAbsent_element.1 h).2
        exact ih (hcs c (List.mem_of_getElem? hi))

end Node

/-! ## Anchoring -/

namespace Heading

open Html.Navigation (isHeading isGroup)
open Ledger (Grows)

theorem grows_ensureNode (ids : Identifiers) {n : Node} (h3 : n.isA .head3 = true) :
    Grows ⟨n.entryAt, ids⟩ ⟨(Anchor.ensureNode ids n).1.entryAt, (Anchor.ensureNode ids n).2⟩ := by
  obtain ⟨as, cs, rfl⟩ := Node.isA_iff.1 h3
  cases ha : Anchor.ofAttributes? as with
  | some v =>
    rw [Anchor.ensureNode_element, Anchor.ensure_of_some ids _ ha]
    exact Grows.refl _
  | none =>
    rw [Anchor.ensureNode_of_none ids ha]
    have hentry : ∀ as', (Node.element Kind.head3.name as' cs).entryAt [] =
        some (Node.flattenAll cs, Anchor.ofAttributes? as') := fun as' => by
      rw [Node.entryAt_nil, Node.entry_of_head3 (isA_element.2 rfl), Node.flatten, Node.attributes]
    refine Ledger.grows_of_give [] rfl ((hentry as).trans (by rw [ha])) ?_ ?_
    · exact (hentry _).trans (by rw [Anchor.ofAttributes?_put])
    · intro path hpath
      cases path with
      | nil => exact absurd rfl hpath
      | cons i path => exact (Node.entryAt_cons ..).trans (Node.entryAt_cons ..).symm

mutual

/-- To anchor the headings found in a tree makes its ledger grow. -/
theorem grows_anchorFound (ids : Identifiers) : ∀ n : Node,
    Grows ⟨n.entryAt, ids⟩ ⟨(anchorFound ids n).1.entryAt, (anchorFound ids n).2⟩
  | .text s => Grows.refl _
  | .element name as cs => by
    cases h : isHeading name with
    | true =>
      cases hgroup : isGroup name with
      | true =>
        rw [anchorFound_group h hgroup]
        exact Grows.refl _
      | false =>
        rw [anchorFound_route h hgroup]
        exact grows_ensureNode ids (isA_element.2 (eq_head3 h hgroup))
    | false =>
      have hother : ∀ cs, (Node.element name as cs).entry = none := fun cs => by
        refine Node.entry_of_not_head3 (Bool.eq_false_iff.2 fun h3 => ?_)
        rw [isA_element.1 h3] at h
        exact absurd h (by decide)
      rw [anchorFound_other h]
      refine (grows_anchorFoundAll ids cs).embed (fun place => place.1 :: place.2) rfl rfl ?_ ?_ ?_
      · exact fun place => Node.entryAt_cons ..
      · exact fun place => Node.entryAt_cons ..
      · intro path hpath
        cases path with
        | nil => exact (hother _).trans (hother cs).symm
        | cons i path => exact absurd rfl (hpath (i, path))

theorem grows_anchorFoundAll (ids : Identifiers) : ∀ ns : List Node,
    Grows ⟨Node.entryIn ns, ids⟩
      ⟨Node.entryIn (anchorFoundAll ids ns).1, (anchorFoundAll ids ns).2⟩
  | [] => Grows.refl _
  | n :: rest => by
    rw [anchorFoundAll_cons]
    -- the first tree, then the others, in the row as it then is
    have hfirst : Grows ⟨Node.entryIn (n :: rest), ids⟩
        ⟨Node.entryIn ((anchorFound ids n).1 :: rest), (anchorFound ids n).2⟩ := by
      refine (grows_anchorFound ids n).embed (fun path => (0, path)) rfl rfl (fun _ => rfl)
        (fun _ => rfl) ?_
      rintro ⟨i, path⟩ hplace
      cases i with
      | zero => exact absurd rfl (hplace path)
      | succ i => rfl
    refine hfirst.trans ((grows_anchorFoundAll _ rest).embed (fun place => (place.1 + 1, place.2))
      rfl rfl (fun _ => rfl) (fun _ => rfl) ?_)
    rintro ⟨i, path⟩ hplace
    cases i with
    | zero => rfl
    | succ i => exact absurd rfl (hplace (i, path))

end

end Heading
end RouteDocs
