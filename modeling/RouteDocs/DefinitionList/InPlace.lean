import RouteDocs.Arena

/-!
# Merging in place

The merge of two definition lists as it happens to elements in their places. The
receiving list is given new children, and a list nested in one of its terms is
merged into before that. The lending list is read as it stands when its turn
comes: if it is the receiving list itself, or has an element in common with it,
it is read as it has been changed by then.
-/
namespace RouteDocs.Arena

/-- A term as a list holds it: the item of its marker, and those of its definition. -/
structure Term where
  marker : Item
  definition : List Item

namespace Term

def items (p : Term) : List Item :=
  p.marker :: p.definition

end Term

def isA (a : Arena) (k : Kind) : Item → Bool
  | .text _ => false
  | .element i => (a.cell? i).any fun c => Kind.ofName? c.name == some k

/-- The terms among items, in order. -/
def terms (a : Arena) : List Item → List Term
  | [] => []
  | item :: rest =>
    if a.isA .term item then ⟨item, rest.takeWhile fun it => !a.isA .term it⟩ :: a.terms rest
    else a.terms rest

def text? (a : Arena) (p : Term) : Option String :=
  (a.tree? p.marker).map Node.flatten

/-- The terms of the list in a place by their texts; of terms with one text the last counts. -/
def byTerm (a : Arena) (i : Nat) : Option (Entries String Term) := do
  let c ← a.cell? i
  let pairs ← (a.terms c.items).mapM fun p => (a.text? p).map (·, p)
  return Entries.ofPairs pairs

def firstList? (a : Arena) : List Item → Option Nat
  | [] => none
  | .text _ :: rest => a.firstList? rest
  | .element i :: rest =>
    if a.isA .definitionList (.element i) then some i else a.firstList? rest

/-- A second term like one, made of new elements. -/
def copyTerm (a : Arena) (p : Term) : Option (Term × Arena) := do
  let (marker, a) ← a.copy p.marker
  let (definition, a) ← a.copyAll p.definition
  return (⟨marker, definition⟩, a)

def inOrder (terms : Entries String Term) : Entries String Term :=
  terms.mergeSort fun a b => a.1 ≤ b.1

/-- Lend terms to a list, one after the other. A term that the list lacks is copied. Where it has
the term, the first list nested in the one is merged into the first list nested in the other, by
`mergeLists`. -/
def lend (mergeLists : Arena → Nat → Nat → Option Arena) :
    Arena → Entries String Term → Entries String Term → Option (Arena × Entries String Term)
  | a, [], own => some (a, own)
  | a, (t, q) :: rest, own =>
    match Entries.get? own t with
    | none => do
      let (copied, a) ← a.copyTerm q
      lend mergeLists a rest (Entries.put own t copied)
    | some p =>
      match a.firstList? q.definition, a.firstList? p.definition with
      | some i, some j => do
        let a ← mergeLists a i j
        lend mergeLists a rest own
      | _, _ => lend mergeLists a rest own

/-- Merge one list into another, where lists lie at most `depth` deep in each other. -/
def mergeWithin : Nat → Arena → Nat → Nat → Option Arena
  | 0, _, _, _ => none
  | depth + 1, a, source, dest => do
    let lent ← a.byTerm source
    let own ← a.byTerm dest
    let (a, own) ← lend (mergeWithin depth) a (inOrder lent) own
    return a.setItems dest ((inOrder own).flatMap fun (_, p) => p.items)

/-- Merge the list in one place into the list in another. None only if an element lies within
itself, so that there is no end to its terms. Mirrors `merge_definition_lists`. -/
def mergeLists (a : Arena) (source dest : Nat) : Option Arena :=
  mergeWithin a.size a source dest

end RouteDocs.Arena
