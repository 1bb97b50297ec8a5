import RouteDocs.Yaml.Cursor

/-!
# Block scalars

A block scalar is the indented lines after its header. The literal style keeps
the line breaks, the folded style makes a single break between two lines that
start with no blank a space. The header may give the indentation, and say
whether the breaks at the end are kept, dropped, or clipped to one.
-/
namespace RouteDocs.Yaml.Block

/-- What becomes of the line breaks at the end. -/
inductive Chomping where
  | clip
  | strip
  | keep
  deriving DecidableEq

structure Header where
  chomping : Chomping
  increment : Option Nat
  deriving DecidableEq

/-- The chomping that a character asks for. -/
def chomping? : Char → Option Chomping
  | '+' => some .keep
  | '-' => some .strip
  | _ => none

/-- The indentation that a character asks for; zero is refused. -/
def increment? (c : Char) : Option Nat :=
  if c.isDigit && c ≠ '0' then some (c.toNat - 0x30) else none

/-- The indicators of a header, and how many characters they take. -/
def indicators (s : List Char) : Header × Nat :=
  match s with
  | [] => (⟨.clip, none⟩, 0)
  | a :: rest =>
    match chomping? a, increment? a with
    | some ch, _ =>
      match rest.head?.bind increment? with
      | some n => (⟨ch, some n⟩, 2)
      | none => (⟨ch, none⟩, 1)
    | none, some n =>
      match rest.head?.bind chomping? with
      | some ch => (⟨ch, some n⟩, 2)
      | none => (⟨.clip, some n⟩, 1)
    | none, none => (⟨.clip, none⟩, 0)

/-- The header after its first indicator, and the start of the line after it. -/
def header? (c : Cursor) : Option (Header × Cursor) :=
  let (h, n) := indicators c.rest
  let c := c.advance n
  if !endsPart c.next? then none
  else
    let c := c.skipSpaces.skipComment
    if endsLine c.next? then some (h, c.step) else none

/-- The breaks of the empty lines at a place, and the place after them; spaces are passed over up
to a column. -/
def emptyLines (column : Nat) : Nat → Cursor → List Char × Cursor
  | 0, c => ([], c)
  | fuel + 1, c =>
    let spaces := (c.run (· == ' ')).length
    let c := c.advance (min spaces (column - c.column))
    match c.next? with
    | some x =>
      if isBreak x then
        let (breaks, c) := emptyLines column fuel c.step
        (readBreak x :: breaks, c)
      else ([], c)
    | none => ([], c)

/-- The empty lines before a scalar: their breaks, the column of the first break, the greatest
column that spaces reach in them and on the line after them, and the place after all these. -/
structure Margin where
  breaks : List Char
  firstBreak : Option Nat
  widest : Nat
  after : Cursor

/-- Measure the empty lines at a place. -/
def measure : Nat → Cursor → Margin
  | 0, c => ⟨[], none, 0, c⟩
  | fuel + 1, c =>
    let spaces := (c.run (· == ' ')).length
    let c := c.advance spaces
    let reached := if spaces = 0 then 0 else c.column
    match c.next? with
    | some x =>
      if isBreak x then
        let m := measure fuel c.step
        ⟨readBreak x :: m.breaks, some c.column, max reached m.widest, m.after⟩
      else ⟨[], none, reached, c⟩
    | none => ⟨[], none, reached, c⟩

/-- Whether the empty lines tell no indentation: the first of them is indented, but less than
what follows. -/
def Margin.isUneven (m : Margin) : Bool :=
  m.firstBreak.any fun first => 0 < first && first < m.widest

/-- What stands between two lines, given the break after the first. -/
def joint (isFolded : Bool) (ended : Char) (fromText toText : Bool) (breaks : List Char) :
    List Char :=
  if isFolded && ended == '\n' && fromText && toText then
    if breaks.isEmpty then [' '] else breaks
  else ended :: breaks

/-- What stands after the last line. -/
def ending (h : Chomping) (ended : Option Char) (breaks : List Char) : List Char :=
  match h with
  | .clip => ended.toList
  | .keep => ended.toList ++ breaks
  | .strip => []

/-- The lines from a place on, and the place after them. `top` tells that the scalar may stand at
the left margin, where a document marker ends it. -/
def lines (isFolded top : Bool) (h : Chomping) (indent : Nat) : Nat → Cursor → List Char × Cursor
  | 0, c => ([], c)
  | fuel + 1, c =>
    let content := c.run fun x => !isBreak x
    let after := c.advance content.length
    let ended := after.next?.map readBreak
    let (breaks, after) := emptyLines indent (after.rest.length + 1) after.step
    let startsText := fun x : Cursor => !(x.next?.any Yaml.isBlank)
    let atMarker := top && after.column == 0 && after.hasMarker
    if atMarker || after.column ≠ indent || after.next?.isNone then
      (content ++ ending h ended breaks, after)
    else
      let (more, last) := lines isFolded top h indent fuel after
      (content ++ joint isFolded (ended.getD '\n') (startsText c) (startsText after) breaks ++ more,
        last)

/-- The scalar after its first indicator, within a block that is indented to a column, and the
place after it. -/
def scan? (isFolded : Bool) (outer : Int) (c : Cursor) : Option (List Char × Cursor) := do
  let (h, c) ← header? c
  let fuel := c.rest.length + 1
  let least := (outer + 1).toNat
  let (breaks, indent, c) ← match h.increment with
    | some n =>
      let indent := max least 1 + n - 1
      let (breaks, c) := emptyLines indent fuel c
      some (breaks, indent, c)
    | none =>
      let m := measure fuel c
      if m.isUneven then none else some (m.breaks, max least m.widest, m.after)
  if c.column = indent && c.next?.isSome then
    let (s, c) := lines isFolded (h.increment.isNone && least == 0) h.chomping indent fuel c
    return (breaks ++ s, c)
  else return (ending h.chomping none breaks, c)

end RouteDocs.Yaml.Block
