import RouteDocs.Yaml.Document
import RouteDocs.Yaml.Scalar.Typed

/-!
# Values of a document

`Building.value` builds what a node stands for. A collection is a cell of a
store, found by its number, so that it can hold itself. The cell is made when
the node is met and filled later, in the order in which the cells were made;
only what stands in a key is filled at once, because a key must not change.

The keys of a mapping differ. A key `<<` takes in the members of other
mappings, which give way to the mapping's own; where it does, the keys may
repeat and the last value counts.
-/
namespace RouteDocs.Yaml

/-- What a node stands for: a value that is no collection, or a cell. -/
inductive Datum where
  | plain (s : Setting)
  | cell (n : Nat)

instance : Inhabited Datum := ⟨.plain .null⟩

/-- A collection of a document. Keys are values that cannot change. -/
inductive Cell where
  | list (items : List Datum)
  | tuple (items : List Datum)
  | mapping (members : List (Setting × Datum))
  | ordered (members : List (Setting × Datum))
  | set (items : List Setting)

instance : Inhabited Cell := ⟨.list []⟩

/-- The values in the making. `made` are the values of nodes that have one, `inWork` the nodes on
which work goes on, `waiting` the nodes whose cells are to be filled. `atOnce` tells that cells are
filled at once. -/
structure Building where
  version : Version
  graph : Graph
  cells : Array Cell
  made : Array (Option Datum)
  inWork : List Nat
  waiting : List (Nat × Nat)
  atOnce : Bool

abbrev Build (α : Type) := EStateM YamlProblem Building α

namespace Build

def node (n : Nat) : Build Node := do
  return (← get).graph.getD n default

def change (n : Nat) (f : Node → Node) : Build Unit :=
  modify fun b => { b with graph := b.graph.modify n f }

def reserve (c : Cell) : Build Nat := do
  let n := (← get).cells.size
  modify fun b => { b with cells := b.cells.push c }
  return n

def fill (n : Nat) (c : Cell) : Build Unit :=
  modify fun b => { b with cells := b.cells.setIfInBounds n c }

/-! ## Merging -/

/-- Whether a node is a key that takes in other mappings. -/
def isMergeKey (n : Nat) : Build Bool := do
  return (← node n).kind = .merge

/-- A key that stands for a default is a text. -/
def settleKey (n : Nat) : Build Unit := do
  if (← node n).kind = .default then change n fun k => { k with kind := .core .text }

mutual

/-- Take in what the members of a mapping say is to be taken in, from a position on, and give what
has been taken in. -/
def mergeFrom : Nat → Nat → Nat → List (Nat × Nat) → Build (List (Nat × Nat))
  | 0, _, _, _ => throw .depth
  | fuel + 1, n, i, taken => do
    match ((← node n).members?.getD [])[i]? with
    | none => return taken
    | some (k, v) =>
      if ← isMergeKey k then
        if !taken.isEmpty then throw .duplicateKey
        change n fun m => m.withMembers ((m.members?.getD []).eraseIdx i)
        let found ← mergeSource fuel v
        mergeFrom fuel n i found
      else
        settleKey k
        mergeFrom fuel n (i + 1) taken

/-- The members that a mapping, or each mapping of a list, has to give; of several the first
counts most. -/
def mergeSource : Nat → Nat → Build (List (Nat × Nat))
  | 0, _ => throw .depth
  | fuel + 1, n => do
    match (← node n).shape with
    | .mapping _ => flatten fuel n
    | .list items => return (← mergeSources fuel items).reverse.flatten
    | .scalar _ => throw .construction

/-- The members of each mapping of a list. -/
def mergeSources : Nat → List Nat → Build (List (List (Nat × Nat)))
  | 0, _ => throw .depth
  | _, [] => return []
  | fuel + 1, n :: rest => do
    match (← node n).shape with
    | .mapping _ =>
      let ms ← flatten fuel n
      return ms :: (← mergeSources fuel rest)
    | _ => throw .construction

/-- Put the members that a mapping takes in before its own, and give all of them. -/
def flatten : Nat → Nat → Build (List (Nat × Nat))
  | 0, _ => throw .depth
  | fuel + 1, n => do
    let taken ← mergeFrom fuel n 0 []
    if !taken.isEmpty then
      change n fun m => { m.withMembers (taken ++ m.members?.getD []) with merged := some taken }
    return (← node n).members?.getD []

end

/-! ## Keys -/

/-- The value of a cell that cannot change, if that is so of all its parts. -/
def frozen? (cells : Array Cell) : Nat → Datum → Option Setting
  | _, .plain s => some s
  | 0, .cell _ => none
  | fuel + 1, .cell n =>
    match cells[n]? with
    | some (.tuple items) => (items.mapM (frozen? cells fuel)).map .tuple
    | _ => none

/-- A value as the key of a mapping: a list counts as the tuple of its items, and no other
collection can be a key. None if a part of it can change. -/
def keyOf (d : Datum) : Build (Option Setting) := do
  let cells := (← get).cells
  match d with
  | .plain s => return some s
  | .cell n =>
    match cells[n]? with
    | some (.list items) => return (items.mapM (frozen? cells cells.size)).map .tuple
    | _ => throw .construction

/-- A value as the key of an ordered mapping, which no collection can be. -/
def orderedKeyOf (d : Datum) : Build Setting :=
  match d with
  | .plain s => return s
  | .cell _ => throw .changingKey

def hasKey (members : List (Setting × Datum)) (key : Setting) : Bool :=
  members.any fun (k, _) => Setting.sameKey k key

/-- Give a key a value: in its place if it has one, else at the end. -/
def put : List (Setting × Datum) → Setting → Datum → List (Setting × Datum)
  | [], key, value => [(key, value)]
  | (k, v) :: rest, key, value =>
    if Setting.sameKey k key then (k, value) :: rest else (k, v) :: put rest key value

/-! ## Values -/

/-- Do something with cells filled at once. -/
def atOnce {α : Type} (step : Build α) : Build α := do
  let before := (← get).atOnce
  modify fun b => { b with atOnce := true }
  let a ← step
  modify fun b => { b with atOnce := before }
  return a

/-- The text of a scalar, or of the default of a mapping. -/
def scalarText : Nat → Nat → Build Text.WideText
  | 0, _ => throw .depth
  | fuel + 1, n => do
    match (← node n).shape with
    | .scalar s => return s
    | .list _ => throw .construction
    | .mapping members =>
      match ← members.findM? fun (k, _) => return (← node k).kind = .default with
      | some (_, v) => scalarText fuel v
      | none => throw .construction

def itemsOf (n : Nat) : Build (List Nat) := do
  match (← node n).shape with
  | .list items => return items
  | _ => throw .construction

/-- The key and the value of a mapping of one member. -/
def pairOf (n : Nat) : Build (Nat × Nat) := do
  match (← node n).shape with
  | .mapping [pair] => return pair
  | _ => throw .construction

/-- An empty collection of a type; none for the types of scalars. -/
def emptyCell? : CoreType → Option Cell
  | .list => some (.list [])
  | .pairs => some (.list [])
  | .mapping => some (.mapping [])
  | .ordered => some (.ordered [])
  | .set => some (.set [])
  | _ => none

mutual

/-- What a node stands for. Within itself a node that is filled at once stands for null. -/
def value : Nat → Nat → Build Datum
  | 0, _ => throw .depth
  | fuel + 1, n => do
    let b ← get
    match b.made.getD n none with
    | some d => return d
    | none =>
      if b.inWork.contains n then return .plain .null
      set { b with inWork := n :: b.inWork }
      let d ← fresh fuel n
      modify fun b => { b with made := b.made.setIfInBounds n (some d), inWork := b.inWork.tail }
      return d

/-- What a node stands for that has no value yet. -/
def fresh : Nat → Nat → Build Datum
  | 0, _ => throw .depth
  | fuel + 1, n => do
    match (← node n).kind with
    | .core t =>
      match emptyCell? t with
      | none =>
        if t = .timestamp then
          match (← node n).shape with
          | .scalar s => return .plain (← ofExcept (Typed.setting (← get).version t s))
          | _ => throw .construction
        else
          let s ← scalarText fuel n
          return .plain (← ofExcept (Typed.setting (← get).version t s))
      | some c =>
        let place ← reserve c
        if (← get).atOnce then fillCell fuel t n place
        else modify fun b => { b with waiting := b.waiting ++ [(n, place)] }
        return .cell place
    | _ => throw .construction

def fillCell : Nat → CoreType → Nat → Nat → Build Unit
  | 0, _, _, _ => throw .depth
  | fuel + 1, t, n, place => do
    match t with
    | .list => fill place (.list (← values fuel (← itemsOf n)))
    | .pairs => fill place (.list (← pairs fuel (← itemsOf n)))
    | .ordered => fill place (.ordered (← entries fuel [] (← itemsOf n)))
    | .mapping => fill place (.mapping (← members fuel n))
    | .set => fill place (.set ((← members fuel n).map Prod.fst))
    | _ => return

/-- What several nodes stand for. -/
def values : Nat → List Nat → Build (List Datum)
  | 0, _ => throw .depth
  | _, [] => return []
  | fuel + 1, n :: rest => do
    let d ← value fuel n
    return d :: (← values fuel rest)

/-- Tuples of a key and a value. -/
def pairs : Nat → List Nat → Build (List Datum)
  | 0, _ => throw .depth
  | _, [] => return []
  | fuel + 1, n :: rest => do
    let (k, v) ← pairOf n
    let key ← value fuel k
    let d ← value fuel v
    let place ← reserve (.tuple [key, d])
    return .cell place :: (← pairs fuel rest)

/-- The members of an ordered mapping after those there are. -/
def entries : Nat → List (Setting × Datum) → List Nat → Build (List (Setting × Datum))
  | 0, _, _ => throw .depth
  | _, found, [] => return found
  | fuel + 1, found, n :: rest => do
    let (k, v) ← pairOf n
    let key ← orderedKeyOf (← value fuel k)
    if hasKey found key then throw .repeatedEntry
    let d ← value fuel v
    entries fuel (found ++ [(key, d)]) rest

/-- The members of a mapping: those taken in, and then its own. -/
def members : Nat → Nat → Build (List (Setting × Datum))
  | 0, _ => throw .depth
  | fuel + 1, n => do
    match (← node n).shape with
    | .mapping _ =>
      let own ← flatten fuel n
      match (← node n).merged with
      | none => row fuel true [] own
      | some taken =>
        let found ← row fuel false [] taken
        let own ← row fuel false [] own
        return own.foldl (fun ms (k, v) => put ms k v) found
    | _ => throw .construction

/-- Members after those there are. `distinct` tells that their keys must differ. -/
def row : Nat → Bool → List (Setting × Datum) → List (Nat × Nat) →
    Build (List (Setting × Datum))
  | 0, _, _, _ => throw .depth
  | _, _, found, [] => return found
  | fuel + 1, distinct, found, (k, v) :: rest => do
    let key ← keyOf (← atOnce (value fuel k))
    let d ← value fuel v
    match key with
    | none => throw .changingKey
    | some key =>
      if distinct && hasKey found key then throw .duplicateKey
      row fuel distinct (put found key d) rest

end

/-- Fill the cells that wait, and those that come to wait meanwhile. -/
def fillAll (depth : Nat) : Nat → Build Unit
  | 0 => return
  | fuel + 1 => do
    match (← get).waiting with
    | [] => return
    | (n, place) :: rest =>
      modify fun b => { b with waiting := rest }
      match (← node n).kind with
      | .core t => fillCell depth t n place
      | _ => return
      fillAll depth fuel

/-- What a document stands for, with the cells that it is made of. -/
def ofDocument (d : Document) : Except YamlProblem (Datum × Array Cell) :=
  let b : Building := {
    version := d.version
    graph := d.graph
    cells := #[]
    made := Array.replicate d.graph.size none
    inWork := []
    waiting := []
    atOnce := false }
  let depth := 16 * d.graph.size + 16
  let step : Build Datum := do
    let root ← value depth d.root
    fillAll depth depth
    return root
  match step.run b with
  | .ok root b => .ok (root, b.cells)
  | .error p _ => .error p

end Build
end RouteDocs.Yaml
