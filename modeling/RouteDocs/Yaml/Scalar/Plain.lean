import RouteDocs.Yaml.Cursor

/-!
# Plain scalars

A plain scalar stands without quotes. It ends before a colon or a number sign
that a blank sets apart, and inside brackets before a comma or a bracket, in
the older version of the format also before a question mark. It may go on over
several lines as long as they are indented deep enough; the gaps between them
are folded.
-/
namespace RouteDocs.Yaml.Plain

/-- Where a scalar stands: outside of brackets, or inside, in the newer version of the format or
the older. -/
inductive Place where
  | block
  | flow
  | oldFlow
  deriving DecidableEq

/-- Whether a character ends a run, given the one after it. -/
def stops (place : Place) (c : Char) (next : Option Char) : Bool :=
  endsWord (some c) || (c == ':' && endsWord next) ||
    (place ≠ .block && (c == ',' || c == '[' || c == ']' || c == '{' || c == '}')) ||
    (place = .oldFlow && c == '?')

/-- The characters of a scalar up to a gap or its end. -/
def runOf (place : Place) : List Char → List Char
  | [] => []
  | c :: rest => if stops place c rest.head? then [] else c :: runOf place rest

/-- A gap in a scalar: what it stands for if the scalar goes on, and whether it crosses a line. -/
structure Gap where
  text : List Char
  crosses : Bool

/-- The gap at a place and the place after it. A document marker ends the scalar. -/
def gap (c : Cursor) : Gap × Cursor :=
  let spaces := c.run (· == ' ')
  let c := c.advance spaces.length
  match c.next? with
  | some x =>
    if isBreak x then
      match breaksFrom (· == ' ') c.rest.length c.step with
      | (_, c, true) => (⟨[], true⟩, c)
      | (breaks, c, false) => (⟨folded (readBreak x) breaks, true⟩, c)
    else (⟨spaces, false⟩, c)
  | none => (⟨spaces, false⟩, c)

/-- A scalar with the place after it, and whether that place starts a line. -/
structure Scan where
  text : List Char
  after : Cursor
  onNewLine : Bool

/-- The rest of a scalar. `indent` is the least column of its lines, `before` the gap before the
next run. -/
def scanFrom (place : Place) (indent : Int) : Nat → Cursor → Gap → Scan
  | 0, c, before => ⟨[], c, before.crosses⟩
  | fuel + 1, c, before =>
    let found := if c.next? == some '#' then [] else runOf place c.rest
    if found.isEmpty then ⟨[], c, before.crosses⟩
    else
      let (g, c) := gap (c.advance found.length)
      if g.text.isEmpty || c.next? == some '#' || (place = .block && (c.column : Int) < indent) then
        ⟨before.text ++ found, c, g.crosses⟩
      else
        let more := scanFrom place indent fuel c g
        ⟨before.text ++ found ++ more.text, more.after, more.onNewLine⟩

/-- The scalar at a place. -/
def scan (place : Place) (indent : Int) (c : Cursor) : Scan :=
  scanFrom place indent (c.rest.length + 1) c ⟨[], false⟩

end RouteDocs.Yaml.Plain
