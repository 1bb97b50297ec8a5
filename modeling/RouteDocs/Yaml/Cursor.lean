/-!
# A place in a YAML text

A cursor is what is left of a text, with the line and the column it starts at.
Four characters break a text: the line feed, the next-line control, and the
line and paragraph separators. Each of them ends a scalar line and a comment,
but the line feed alone starts a new line: after the others the column goes on.
-/
namespace RouteDocs.Yaml

/-- A character that breaks a text. -/
def isBreak (c : Char) : Bool :=
  c == '\n' || c.toNat == 0x85 || c.toNat == 0x2028 || c.toNat == 0x2029

/-- A space or a tab. -/
def isBlank (c : Char) : Bool :=
  c == ' ' || c == '\t'

/-- Whether nothing that belongs to a word stands at a place: a blank, a break or the end of the
text. -/
def endsWord : Option Char → Bool
  | none => true
  | some c => isBlank c || isBreak c

/-- Whether a break or the end of the text stands at a place. -/
def endsLine : Option Char → Bool
  | none => true
  | some c => isBreak c

/-- Whether a break, the end of the text or a space stands at a place. -/
def endsPart (c : Option Char) : Bool :=
  c == some ' ' || endsLine c

/-- A break as it is read: the separators are kept, the others are line feeds. -/
def readBreak (c : Char) : Char :=
  if c.toNat == 0x2028 || c.toNat == 0x2029 then c else '\n'

/-- A place in a text. -/
structure Cursor where
  rest : List Char
  index : Nat
  line : Nat
  column : Nat

namespace Cursor

def start (s : List Char) : Cursor := ⟨s, 0, 0, 0⟩

def next? (c : Cursor) : Option Char := c.rest.head?

/-- The character after the next. -/
def second? (c : Cursor) : Option Char := c.rest[1]?

/-- The place after the next character. A byte order mark takes no column. -/
def step (c : Cursor) : Cursor :=
  match c.rest with
  | [] => c
  | x :: rest =>
    if x = '\n' then ⟨rest, c.index + 1, c.line + 1, 0⟩
    else ⟨rest, c.index + 1, c.line, if x.toNat = 0xfeff then c.column else c.column + 1⟩

/-- The place after some characters. -/
def advance : Nat → Cursor → Cursor
  | 0, c => c
  | n + 1, c => advance n c.step

/-- The characters that satisfy a test. -/
def run (c : Cursor) (test : Char → Bool) : List Char :=
  c.rest.takeWhile test

/-- The place after the characters that satisfy a test. -/
def skip (c : Cursor) (test : Char → Bool) : Cursor :=
  c.advance (c.run test).length

def skipSpaces (c : Cursor) : Cursor :=
  c.skip (· == ' ')

/-- The place after a comment, if one stands here. -/
def skipComment (c : Cursor) : Cursor :=
  if c.next? == some '#' then c.skip fun x => !isBreak x else c

/-- Whether a text stands at a place. -/
def startsWith (c : Cursor) (s : List Char) : Bool :=
  s.isPrefixOf c.rest

/-- Whether three characters stand at a place as a word. -/
def hasWord (c : Cursor) (word : List Char) : Bool :=
  c.startsWith word && endsWord c.rest[3]?

def startMarker : List Char := ['-', '-', '-']

def endMarker : List Char := ['.', '.', '.']

/-- Whether a marker of a document stands at a place. -/
def hasMarker (c : Cursor) : Bool :=
  c.hasWord startMarker || c.hasWord endMarker

end Cursor

/-! ## Folding -/

/-- The breaks after the first break of a gap, the place after them, and whether a marker stands
after one of the breaks. Between breaks, characters that satisfy a test are passed over. -/
def breaksFrom (blank : Char → Bool) : Nat → Cursor → List Char × Cursor × Bool
  | 0, c => ([], c, false)
  | fuel + 1, c =>
    if c.hasMarker then ([], c, true)
    else
      let c := c.skip blank
      match c.next? with
      | some x =>
        if isBreak x then
          let (breaks, c, marker) := breaksFrom blank fuel c.step
          (readBreak x :: breaks, c, marker)
        else ([], c, false)
      | none => ([], c, false)

/-- What a gap stands for: one line feed is a space, several lose the first. -/
def folded (first : Char) (breaks : List Char) : List Char :=
  if first ≠ '\n' then first :: breaks
  else if breaks.isEmpty then [' ']
  else breaks

end RouteDocs.Yaml
