import RouteDocs.Yaml.Store

/-!
# Settings of a YAML text

`settingOfText` reads a text as a setting. A collection that holds itself is
labelled by the number of its cell.
-/
namespace RouteDocs.Yaml

namespace Cell

/-- The cells that a cell holds. -/
def parts (c : Cell) : List Nat :=
  let cellOf := fun
    | Datum.cell n => some n
    | Datum.plain _ => none
  match c with
  | list items => items.filterMap cellOf
  | tuple items => items.filterMap cellOf
  | mapping members => members.filterMap fun (_, d) => cellOf d
  | ordered members => members.filterMap fun (_, d) => cellOf d
  | set _ => []

/-- Mark the cells that can be reached from several others. -/
def mark (cells : Array Cell) : Nat → List Nat → Array Bool → Array Bool
  | 0, _, seen => seen
  | _, [], seen => seen
  | fuel + 1, n :: rest, seen =>
    if seen.getD n true then mark cells fuel rest seen
    else
      let next := (cells[n]?.map parts).getD []
      mark cells fuel (next ++ rest) (seen.setIfInBounds n true)

/-- The number of parts of all cells. -/
def totalParts (cells : Array Cell) : Nat :=
  cells.foldl (fun n c => n + c.parts.length) 0

/-- Whether each cell holds itself. -/
def holdItself (cells : Array Cell) : Array Bool :=
  let fuel := totalParts cells + cells.size + 1
  cells.mapIdx fun n c =>
    (mark cells fuel c.parts (Array.replicate cells.size false)).getD n false

end Cell

/-- The settings of cells that hold no cell around them, as far as they are known. -/
abbrev Known := Array (Option Setting)

/-- The setting of a value within some cells. -/
def settingOf (cells : Array Cell) (cyclic : Array Bool) :
    Nat → List Nat → Datum → StateM Known Setting
  | _, _, .plain s => return s
  | 0, _, .cell n => return .back n
  | fuel + 1, around, .cell n => do
    if around.contains n then return .back n
    match (← get).getD n none with
    | some s => return s
    | none =>
      let inside := settingOf cells cyclic fuel (n :: around)
      let members := fun ms : List (Setting × Datum) => ms.mapM fun (k, d) => return (k, ← inside d)
      let content ← match cells[n]? with
        | some (.list items) => pure <| Setting.list (← items.mapM inside)
        | some (.tuple items) => pure <| Setting.tuple (← items.mapM inside)
        | some (.mapping ms) => pure <| Setting.mapping (← members ms)
        | some (.ordered ms) => pure <| Setting.ordered (← members ms)
        | some (.set items) => pure <| Setting.set items
        | none => pure Setting.null
      if cyclic.getD n false then return .shared n content
      modify fun known => known.setIfInBounds n (some content)
      return content

/-- The setting that a value and its cells stand for. -/
def settingOfCells (root : Datum) (cells : Array Cell) : Setting :=
  let known : Known := Array.replicate cells.size none
  ((settingOf cells (Cell.holdItself cells) (cells.size + 1) [] root).run known).1

/-- A character that a file may hold. -/
def isPermitted (c : Char) : Bool :=
  let n := c.toNat
  n == 0x09 || n == 0x0a || n == 0x0d || (0x20 ≤ n && n ≤ 0x7e) || n == 0x85 ||
    (0xa0 ≤ n && n ≤ 0xd7ff) || (0xe000 ≤ n && n ≤ 0xfffd) || 0x10000 ≤ n

/-- What a text means; one without a document means null. -/
def settingOfText (s : List Char) : Except YamlProblem Setting :=
  if !s.all isPermitted then .error .character
  else do
    match ← Document.ofText s with
    | none => return .null
    | some d =>
      let (root, cells) ← Build.ofDocument d
      return settingOfCells root cells

end RouteDocs.Yaml
