import RouteDocs.Entries
import RouteDocs.Yaml.Prologue
import RouteDocs.Yaml.Scalar.Block
import RouteDocs.Yaml.Scalar.Plain
import RouteDocs.Yaml.Scalar.Quoted

/-!
# Tokens of a YAML text

`tokens` cuts a text into its tokens. Indentation becomes tokens too: a deeper
column starts a block, a shallower one ends the blocks that are deeper.

Whether a scalar is the key of a mapping shows only at the colon after it. So
a place where a key may have started is remembered, one for each level of
brackets, and the key token is put there when the colon comes. What stands
after a pending key waits for it; all other tokens are handed over as soon as
they are cut, and the text is cut no further than the next token needs. Where
no token can stand, the tokens end with `bad`.
-/
namespace RouteDocs.Yaml

open Text (WideText)

inductive Token where
  | streamEnd
  | directive (d : Directive)
  | documentStart
  /-- The end of a document, and whether the next token stands on the same line. -/
  | documentEnd (crowded : Bool)
  | blockList
  | blockMapping
  | blockEnd
  | openList
  | closeList
  | openMapping
  | closeMapping
  | blockItem
  | comma
  | key
  | value
  | alias (name : String)
  | anchor (name : String)
  | tag (t : Tag.Written)
  | scalar (text : WideText) (plain : Bool)
  | bad (p : YamlProblem)
  deriving DecidableEq

/-- A place where a key may have started; `position` counts the tokens before it. -/
structure PendingKey where
  position : Nat
  required : Bool
  index : Nat
  line : Nat
  column : Nat

/-- How far a text has been cut. The blocks around a place are kept by their columns and the
brackets by their opening characters, innermost first. `waiting` are the tokens that are cut but
not yet handed over, `handed` counts the others. -/
structure Layout where
  cursor : Cursor
  version : Version
  indent : Int
  outer : List Int
  brackets : List Char
  keyAllowed : Bool
  pending : Entries Nat PendingKey
  waiting : List Token
  handed : Nat
  ended : Bool

/-- A step of the cutting; a failure leaves the layout as it is. -/
abbrev Cutting := EStateM YamlProblem Layout

namespace Layout

/-- Before the first character. A byte order mark is passed over. -/
def start (s : List Char) : Layout :=
  let c := Cursor.start s
  { cursor := if c.next?.any fun x => x.toNat == 0xfeff then c.step else c
    version := .newer
    indent := -1
    outer := []
    brackets := []
    keyAllowed := true
    pending := []
    waiting := []
    handed := 0
    ended := false }

def level (l : Layout) : Nat := l.brackets.length

/-- Whether a place is within brackets. -/
def inFlow (l : Layout) : Bool := !l.brackets.isEmpty

/-- Whether the older version of the format is in force. -/
def isOlder (l : Layout) : Bool := l.version == .older

/-- The number of tokens cut so far. -/
def count (l : Layout) : Nat := l.handed + l.waiting.length

/-- The tokens that wait, with one put in at a position. -/
def inserted (l : Layout) (position : Nat) (t : Token) : List Token :=
  l.waiting.insertIdx (position - l.handed) t

/-! ## Changes -/

def moveTo (c : Cursor) : Cutting Unit :=
  modify fun l => { l with cursor := c }

def push (t : Token) : Cutting Unit :=
  modify fun l => { l with waiting := l.waiting ++ [t] }

def pushChars (n : Nat) (t : Token) : Cutting Unit :=
  modify fun l => { l with cursor := l.cursor.advance n, waiting := l.waiting ++ [t] }

/-- Say whether a key may start at the next place. -/
def allowKey (allowed : Bool) : Cutting Unit :=
  modify fun l => { l with keyAllowed := allowed }

/-- Forget the pending key of a level. -/
def forget (level : Nat) (pending : Entries Nat PendingKey) : Entries Nat PendingKey :=
  pending.filter fun (n, _) => n ≠ level

/-- Give up the pending key of the level in force. A key that the block requires cannot be given
up. -/
def dropKey : Cutting Unit := do
  let l ← get
  match Entries.get? l.pending l.level with
  | none => return
  | some k =>
    if k.required then throw .token
    set { l with pending := forget l.level l.pending }

/-- A key that is not on the line in force, or starts too far back. -/
def isStale (c : Cursor) (k : PendingKey) : Bool :=
  k.line ≠ c.line || 1024 < c.index - k.index

/-- Give up the pending keys that the place in force leaves behind. -/
def dropStaleKeys : Cutting Unit := do
  let l ← get
  if l.pending.any fun (_, k) => isStale l.cursor k && k.required then throw .token
  set { l with pending := l.pending.filter fun (_, k) => !isStale l.cursor k }

/-- Remember the place in force if a key may start there. -/
def saveKey : Cutting Unit := do
  let l ← get
  if l.keyAllowed then
    dropKey
    let c := l.cursor
    let k : PendingKey :=
      ⟨l.count, !l.inFlow && l.indent == (c.column : Int), c.index, c.line, c.column⟩
    modify fun l => { l with pending := forget l.level l.pending ++ [(l.level, k)] }

/-- The blocks that end at a column, and those that remain. -/
def unwound (column : Int) : Int → List Int → Nat × Int × List Int
  | indent, [] => (0, indent, [])
  | indent, next :: outer =>
    if column < indent then
      let (n, indent, outer) := unwound column next outer
      (n + 1, indent, outer)
    else (0, indent, next :: outer)

/-- End the blocks that are deeper than a column. Within brackets columns do not matter. -/
def unwind (column : Int) : Cutting Unit :=
  modify fun l =>
    if l.inFlow then l
    else
      let (n, indent, outer) := unwound column l.indent l.outer
      { l with
        indent := indent
        outer := outer
        waiting := l.waiting ++ List.replicate n .blockEnd }

/-- Start a block at a column that is deeper than the block in force, with a token put at a
position. -/
def startBlock (column : Nat) (position : Nat) (t : Token) : Cutting Unit :=
  modify fun l =>
    if l.indent < (column : Int) then
      { l with
        indent := column
        outer := l.indent :: l.outer
        waiting := l.inserted position t }
    else l

/-! ## Tokens of one kind -/

/-- Pass over blanks, comments and line breaks. Tabs count as blanks within brackets only. A line
break outside of them allows a key. -/
def passOver : Nat → Layout → Layout
  | 0, l => l
  | fuel + 1, l =>
    let c := (l.cursor.skip fun x => x == ' ' || (l.inFlow && x == '\t')).skipComment
    if c.next?.any isBreak then
      passOver fuel { l with cursor := c.step, keyAllowed := l.keyAllowed || !l.inFlow }
    else { l with cursor := c }

def cutEnd : Cutting Unit := do
  unwind (-1)
  dropKey
  modify fun l => { l with keyAllowed := false, pending := [], ended := true }
  push .streamEnd

/-- Whether the next token stands on the line in force. -/
def isCrowded (l : Layout) : Bool :=
  let next := (passOver (l.cursor.rest.length + 1) l).cursor
  next.line == l.cursor.line && next.next?.isSome

def cutStartMarker : Cutting Unit := do
  unwind (-1)
  dropKey
  allowKey false
  pushChars 3 .documentStart

def cutEndMarker : Cutting Unit := do
  unwind (-1)
  dropKey
  allowKey false
  modify fun l => { l with cursor := l.cursor.advance 3 }
  push (.documentEnd (isCrowded (← get)))

def cutDirective : Cutting Unit := do
  unwind (-1)
  dropKey
  allowKey false
  let l ← get
  match Directive.scan? l.version.isAfterOlder l.cursor.step with
  | none => throw .token
  | some (d, c) =>
    let version := match d with
      | .version v => v
      | _ => l.version
    set { l with cursor := c, version := version }
    push (.directive d)

def cutOpening (bracket : Char) (t : Token) : Cutting Unit := do
  saveKey
  modify fun l => { l with brackets := bracket :: l.brackets, keyAllowed := true }
  pushChars 1 t

/-- A closing bracket. That it closes one of its kind is for the reader to see. -/
def cutClosing (t : Token) : Cutting Unit := do
  dropKey
  modify fun l => { l with brackets := l.brackets.tail, keyAllowed := false }
  pushChars 1 t

def cutComma : Cutting Unit := do
  allowKey true
  dropKey
  pushChars 1 .comma

/-- The hyphen before an item of a block. -/
def cutItem : Cutting Unit := do
  let l ← get
  if !l.inFlow then
    if !l.keyAllowed then throw .token
    startBlock l.cursor.column l.count .blockList
  allowKey true
  dropKey
  pushChars 1 .blockItem

/-- The question mark before a key. -/
def cutKey : Cutting Unit := do
  let l ← get
  if !l.inFlow then
    if !l.keyAllowed then throw .token
    startBlock l.cursor.column l.count .blockMapping
  allowKey (!l.inFlow)
  dropKey
  pushChars 1 .key

/-- The colon before a value. The pending key of the level becomes a key. -/
def cutValue : Cutting Unit := do
  let l ← get
  match Entries.get? l.pending l.level with
  | some k =>
    set { l with
      pending := forget l.level l.pending
      waiting := l.inserted k.position .key
      keyAllowed := false }
    if !l.inFlow then startBlock k.column k.position .blockMapping
  | none =>
    if !l.inFlow then
      if !l.keyAllowed then throw .token
      startBlock l.cursor.column l.count .blockMapping
    allowKey (!l.inFlow)
    dropKey
  pushChars 1 .value

/-- A character that the name of an anchor may hold. -/
def isAnchorChar (c : Char) : Bool :=
  let n := c.toNat
  ((0x21 ≤ n && n ≤ 0x7e) || (0xa0 ≤ n && n != 0xfeff && n != 0xfffe && n != 0xffff)) &&
    !(c == ',' || c == '[' || c == ']' || c == '{' || c == '}')

/-- Whether the name of an anchor may end before a character. -/
def endsAnchor (c : Option Char) : Bool :=
  endsWord c || c.any fun x => x == ',' || x == '[' || x == ']' || x == '{' || x == '}'

def cutAnchor (make : String → Token) : Cutting Unit := do
  saveKey
  allowKey false
  let l ← get
  let name := l.cursor.step.run isAnchorChar
  let c := l.cursor.step.advance name.length
  if name.isEmpty || !endsAnchor c.next? then throw .token
  moveTo c
  push (make (String.ofList name))

def cutTag : Cutting Unit := do
  saveKey
  allowKey false
  let l ← get
  match Tag.scan? l.version.isAfterOlder l.cursor with
  | none => throw .token
  | some (t, c) =>
    moveTo c
    push (.tag t)

def cutBlock (isFolded : Bool) : Cutting Unit := do
  allowKey true
  dropKey
  let l ← get
  match Block.scan? isFolded l.indent l.cursor.step with
  | none => throw .token
  | some (s, c) =>
    moveTo c
    push (.scalar (.ofChars s) false)

def cutQuoted (quote : Char) : Cutting Unit := do
  saveKey
  allowKey false
  let l ← get
  match Quoted.scan quote l.cursor with
  | .error p => throw p
  | .ok (s, c) =>
    moveTo c
    push (.scalar s false)

def cutPlain : Cutting Unit := do
  saveKey
  let l ← get
  let place := if !l.inFlow then Plain.Place.block else if l.isOlder then .oldFlow else .flow
  let s := Plain.scan place (l.indent + 1) l.cursor
  moveTo s.after
  allowKey s.onNewLine
  push (.scalar (.ofChars s.text) true)

/-! ## One token after the other -/

/-- A character that is an indicator and starts no plain scalar. -/
def isIndicator (c : Char) : Bool :=
  "-?:,[]{}#&*!|>'\"%@".toList.contains c || c.toNat == 0x60

/-- Whether a colon stands before a value. In the newer version of the format it does only if a
blank follows after an opening square bracket, and right after a colon that waits. -/
def isValue (l : Layout) : Bool :=
  match l.brackets with
  | [] => endsWord l.cursor.second?
  | b :: _ =>
    if !l.isOlder && (b == '[' || l.waiting.getLast? == some .value) then
      endsWord l.cursor.second?
    else true

/-- Whether a plain scalar starts at a place. -/
def isPlain (l : Layout) (x : Char) : Bool :=
  if !(isIndicator x || isBlank x || isBreak x) then true
  else if x == '-' || (!l.inFlow && (x == '?' || x == ':')) then !endsWord l.cursor.second?
  else x == ':' && !l.isOlder && !(l.cursor.second?.any isBlank)

/-- The token that starts with a character. -/
def cutToken (x : Char) : Cutting Unit := do
  let l ← get
  let c := l.cursor
  if x == '%' && c.column == 0 then cutDirective
  else if c.column == 0 && c.hasWord Cursor.startMarker then cutStartMarker
  else if c.column == 0 && c.hasWord Cursor.endMarker then cutEndMarker
  else if x == '[' then cutOpening x .openList
  else if x == '{' then cutOpening x .openMapping
  else if x == ']' then cutClosing .closeList
  else if x == '}' then cutClosing .closeMapping
  else if x == ',' then cutComma
  else if x == '-' && endsWord c.second? then cutItem
  else if x == '?' && (l.inFlow || endsWord c.second?) then cutKey
  else if x == ':' && isValue l then cutValue
  else if x == '*' then cutAnchor .alias
  else if x == '&' then cutAnchor .anchor
  else if x == '!' then cutTag
  else if x == '|' && !l.inFlow then cutBlock false
  else if x == '>' && !l.inFlow then cutBlock true
  else if x == '\'' || x == '"' then cutQuoted x
  else if isPlain l x then cutPlain
  else throw .token

def cutNext : Cutting Unit := do
  modify fun l => passOver (l.cursor.rest.length + 1) l
  dropStaleKeys
  let l ← get
  unwind l.cursor.column
  match l.cursor.next? with
  | none => cutEnd
  | some x => cutToken x

/-- Whether a pending key may have started at the next token to be handed over. -/
def isPending (l : Layout) : Bool :=
  l.pending.any fun (_, k) => k.position == l.handed

/-- Cut a text until its next token waits for no key. Each token takes at least one character. -/
def cutUntilReady : Nat → Cutting Unit
  | 0 => throw .token
  | fuel + 1 => do
    if (← get).ended then return
    if (← get).waiting.isEmpty then
      cutNext
      cutUntilReady fuel
    else
      dropStaleKeys
      if isPending (← get) then
        cutNext
        cutUntilReady fuel

/-- The tokens of a text from a place on. -/
def handOver : Nat → Layout → List Token
  | 0, _ => []
  | fuel + 1, l =>
    match (cutUntilReady (l.cursor.rest.length + 2)).run l with
    | .error p _ => [.bad p]
    | .ok _ l =>
      match l.waiting with
      | [] => []
      | t :: rest => t :: handOver fuel { l with waiting := rest, handed := l.handed + 1 }

end Layout

/-- The tokens of a text. No character adds more than four. -/
def tokens (s : List Char) : List Token :=
  Layout.handOver (4 * s.length + 4) (Layout.start s)

end RouteDocs.Yaml
