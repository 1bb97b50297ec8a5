import RouteDocs.Yaml.Node
import RouteDocs.Yaml.Token

/-!
# Documents

`Document.ofText` reads the one document of a text. What is reported is the
first thing that is wrong, in the order of the text.
-/
namespace RouteDocs.Yaml

open Text (WideText)

/-- What is left of the tokens, the nodes read so far with the numbers of those that have an
anchor, and what directives have said. -/
structure Source where
  tokens : List Token
  graph : Graph
  anchors : Entries String Nat
  version : Version
  handles : Entries String String

abbrev Reading (α : Type) := EStateM YamlProblem Source α

namespace Reading

def peek : Reading Token := do
  match (← get).tokens with
  | [] => return .streamEnd
  | .bad p :: _ => throw p
  | t :: _ => return t

def skip : Reading Unit :=
  modify fun s => { s with tokens := s.tokens.tail }

def nextIsOneOf (ts : List Token) : Reading Bool := do
  return ts.contains (← peek)

/-! ## Nodes -/

/-- Add a node that is to be finished. -/
def reserve (kind : NodeKind) (shape : Shape) : Reading Nat := do
  let n := (← get).graph.size
  modify fun s => { s with graph := s.graph.push ⟨kind, shape, none⟩ }
  return n

/-- Give a node its parts. -/
def finish (n : Nat) (shape : Shape) : Reading Unit :=
  modify fun s => { s with graph := s.graph.modify n fun node => { node with shape := shape } }

/-- Put an anchor on a node. -/
def attach (anchor : Option String) (n : Nat) : Reading Unit :=
  match anchor with
  | some name => modify fun s => { s with anchors := Entries.put s.anchors name n }
  | none => return

/-- The node of an anchor. -/
def follow (name : String) : Reading Nat := do
  match Entries.get? (← get).anchors name with
  | some n => return n
  | none => throw .composition

/-- What stands before a node: its anchor and its full tag. -/
structure Properties where
  anchor : Option String
  tag : Option String

/-- Nothing before a node. -/
def Properties.none : Properties := ⟨.none, .none⟩

/-- Whether something stands before a node. -/
def Properties.isSome (p : Properties) : Bool :=
  p.anchor.isSome || p.tag.isSome

def scalar (p : Properties) (text : WideText) (plain : Bool) : Reading Nat := do
  let n ← reserve (Node.scalarKind (← get).version p.tag text plain) (.scalar text)
  attach p.anchor n
  return n

/-- The node of a place where nothing stands. -/
def absent : Reading Nat := scalar .none [] true

/-- A list whose items are read by a step. Its anchor is known to them. -/
def list (p : Properties) (items : Reading (List Nat)) : Reading Nat := do
  let n ← reserve (Node.collectionKind .list p.tag) (.list [])
  attach p.anchor n
  finish n (.list (← items))
  return n

/-- A mapping whose members are read by a step. Its anchor is known to them. -/
def mapping (p : Properties) (members : Reading (List (Nat × Nat))) : Reading Nat := do
  let n ← reserve (Node.collectionKind .mapping p.tag) (.mapping [])
  attach p.anchor n
  finish n (.mapping (← members))
  return n

/-! ## Properties -/

def readTag : Reading (Option Tag.Written) := do
  match ← peek with
  | .tag t =>
    skip
    return some t
  | _ => return none

def readAnchor : Reading (Option String) := do
  match ← peek with
  | .anchor name =>
    skip
    return some name
  | _ => return none

/-- The full name of a tag. Its handle has to be defined. -/
def fullTag : Option Tag.Written → Reading (Option String)
  | none => return none
  | some ⟨none, suffix⟩ => return some suffix
  | some ⟨some handle, suffix⟩ => do
    match Entries.get? (← get).handles handle with
    | some start => return some (start ++ suffix)
    | none => throw .grammar

/-- The anchor and the tag at a place, in either order. -/
def readProperties : Reading Properties := do
  match ← readAnchor with
  | some name =>
    let tag ← readTag
    return ⟨some name, ← fullTag tag⟩
  | none =>
    match ← readTag with
    | some tag =>
      let anchor ← readAnchor
      return ⟨anchor, ← fullTag (some tag)⟩
    | none => return .none

/-! ## Grammar -/

mutual

/-- Read a node. `inBlock` tells that a block may start, `flush` that the items of a list may
stand at the column of the mapping around it. -/
def readNode : Nat → Bool → Bool → Reading Nat
  | 0, _, _ => throw .grammar
  | fuel + 1, inBlock, flush => do
    match ← peek with
    | .alias name =>
      skip
      follow name
    | _ =>
      let p ← readProperties
      match ← peek with
      | .scalar s plain =>
        skip
        scalar p s plain
      | .openList =>
        skip
        list p (readFlowItems fuel true)
      | .openMapping =>
        skip
        mapping p (readFlowMembers fuel true)
      | t =>
        if t = .blockItem ∧ flush then list p (readFlushItems fuel)
        else if t = .blockList ∧ inBlock then
          skip
          list p (readItems fuel)
        else if t = .blockMapping ∧ inBlock then
          skip
          mapping p (readMembers fuel)
        else if p.isSome then scalar p [] true
        else throw .grammar

def readItems : Nat → Reading (List Nat)
  | 0 => throw .grammar
  | fuel + 1 => do
    match ← peek with
    | .blockItem =>
      skip
      let n ← if ← nextIsOneOf [.blockItem, .blockEnd] then absent else readNode fuel true false
      return n :: (← readItems fuel)
    | .blockEnd =>
      skip
      return []
    | _ => throw .grammar

/-- Read the items of a list that stands at the column of the mapping around it. -/
def readFlushItems : Nat → Reading (List Nat)
  | 0 => throw .grammar
  | fuel + 1 => do
    match ← peek with
    | .blockItem =>
      skip
      let n ← if ← nextIsOneOf [.blockItem, .key, .value, .blockEnd] then absent
        else readNode fuel true false
      return n :: (← readFlushItems fuel)
    | _ => return []

/-- Read the members of a block up to its end. The older version of the format has no value
without a key. -/
def readMembers : Nat → Reading (List (Nat × Nat))
  | 0 => throw .grammar
  | fuel + 1 => do
    match ← peek with
    | .key =>
      skip
      let k ← if ← nextIsOneOf [.key, .value, .blockEnd] then absent else readNode fuel true true
      let v ← readValue fuel
      return (k, v) :: (← readMembers fuel)
    | .value =>
      if !(← get).version.isAfterOlder then throw .grammar
      let k ← absent
      let v ← readValue fuel
      return (k, v) :: (← readMembers fuel)
    | .blockEnd =>
      skip
      return []
    | _ => throw .grammar

def readValue : Nat → Reading Nat
  | 0 => throw .grammar
  | fuel + 1 => do
    match ← peek with
    | .value =>
      skip
      if ← nextIsOneOf [.key, .value, .blockEnd] then absent else readNode fuel true true
    | _ => absent

/-- Read the items between square brackets; `first` tells that none has been read. -/
def readFlowItems : Nat → Bool → Reading (List Nat)
  | 0, _ => throw .grammar
  | fuel + 1, first => do
    if ← nextIsOneOf [.closeList] then
      skip
      return []
    if !first then
      if !(← nextIsOneOf [.comma]) then throw .grammar
      skip
    match ← peek with
    | .closeList =>
      skip
      return []
    | .key =>
      skip
      let n ← mapping .none do
        let k ← if ← nextIsOneOf [.value, .comma, .closeList] then absent
          else readNode fuel false false
        let v ← readFlowValue fuel .closeList
        return [(k, v)]
      return n :: (← readFlowItems fuel false)
    | _ =>
      let n ← readNode fuel false false
      return n :: (← readFlowItems fuel false)

/-- Read the members between braces; `first` tells that none has been read. -/
def readFlowMembers : Nat → Bool → Reading (List (Nat × Nat))
  | 0, _ => throw .grammar
  | fuel + 1, first => do
    if ← nextIsOneOf [.closeMapping] then
      skip
      return []
    if !first then
      if !(← nextIsOneOf [.comma]) then throw .grammar
      skip
    match ← peek with
    | .closeMapping =>
      skip
      return []
    | .key =>
      skip
      let k ← if ← nextIsOneOf [.value, .comma, .closeMapping] then absent
        else readNode fuel false false
      let v ← readFlowValue fuel .closeMapping
      return (k, v) :: (← readFlowMembers fuel false)
    | .value =>
      if !(← get).version.isAfterOlder then throw .grammar
      let k ← absent
      let v ← readFlowValue fuel .closeMapping
      return (k, v) :: (← readFlowMembers fuel false)
    | _ =>
      let k ← readNode fuel false false
      let v ← absent
      return (k, v) :: (← readFlowMembers fuel false)

/-- Read the value of a member between brackets that end with a given token. -/
def readFlowValue : Nat → Token → Reading Nat
  | 0, _ => throw .grammar
  | fuel + 1, closing => do
    match ← peek with
    | .value =>
      skip
      if ← nextIsOneOf [.comma, closing] then absent else readNode fuel false false
    | _ => absent

end

/-! ## Documents -/

/-- The handles that need no definition. -/
def knownHandles : Entries String String :=
  [("!", "!"), ("!!", NodeKind.tagStart)]

/-- The directives at a place: the version, if one is given, and the handles. Each is given at
most once, and the version is one of those with a first number of one. -/
def readDirectives : Nat → Option Version → Entries String String →
    Reading (Option Version × Entries String String)
  | 0, _, _ => throw .grammar
  | fuel + 1, version, handles => do
    match ← peek with
    | .directive (.version v) =>
      skip
      if version.isSome || v.major ≠ 1 then throw .grammar
      readDirectives fuel (some v) handles
    | .directive (.handle name start) =>
      skip
      if (Entries.get? handles name).isSome then throw .grammar
      readDirectives fuel version (handles ++ [(name, start)])
    | .directive .other =>
      skip
      readDirectives fuel version handles
    | _ => return (version, handles)

/-- Whether the next token is the marker of the end of a document. -/
def atDocumentEnd : Reading Bool := do
  match ← peek with
  | .documentEnd _ => return true
  | _ => return false

/-- Whether a document that starts at a place starts with directives or a marker. -/
def startsMarked : Reading Bool := do
  match ← peek with
  | .directive _ | .documentStart => return true
  | _ => return false

/-- The directives and the marker before a document. -/
def readStart (fuel : Nat) : Reading Unit := do
  let (version, handles) ← readDirectives fuel none []
  let v := version.getD .newer
  if v ≠ .older ∧ v ≠ .newer then throw .version
  modify fun s => { s with version := v, handles := handles ++ knownHandles }
  if !(← nextIsOneOf [.documentStart]) then throw .grammar
  skip

/-- Pass over the markers of ends of documents. -/
def skipEnds : Nat → Reading Unit
  | 0 => return
  | fuel + 1 => do
    if ← atDocumentEnd then
      skip
      skipEnds fuel

/-- The end of a document: whether its marker stands there. Nothing else stands on its line. -/
def readEnd : Reading Bool := do
  match ← peek with
  | .documentEnd crowded =>
    skip
    if !(← nextIsOneOf [.streamEnd]) && crowded then throw .grammar
    return true
  | _ => return false

/-- See that no other document follows. After the marker of an end, another may start without a
marker of its own, except in the older version of the format. -/
def expectEnd (fuel : Nat) : Reading Unit := do
  let marked ← readEnd
  let mayBeBare := marked && (← get).version ≠ .older
  if mayBeBare && !((← startsMarked) || (← nextIsOneOf [.streamEnd])) then throw .composition
  skipEnds fuel
  if !(← nextIsOneOf [.streamEnd]) then
    readStart fuel
    throw .composition

/-- Read the document of a text; none if the text holds no document. -/
def readDocument (fuel : Nat) : Reading (Option Nat) := do
  if ← nextIsOneOf [.streamEnd] then return none
  let marked ← startsMarked
  if marked then readStart fuel
  let isEmpty ← if marked then
      pure ((← startsMarked) || (← atDocumentEnd) || (← nextIsOneOf [.streamEnd]))
    else pure false
  let n ← if isEmpty then absent else readNode fuel true false
  expectEnd fuel
  return some n

end Reading

/-- The document of a text, if the text holds one. A token is read in at most four steps. -/
def Document.ofText (s : List Char) : Except YamlProblem (Option Document) :=
  let ts := tokens s
  let source : Source := ⟨ts, #[], [], .newer, Reading.knownHandles⟩
  match (Reading.readDocument (4 * ts.length + 4)).run source with
  | .ok (some n) source => .ok (some ⟨source.graph, n, source.version⟩)
  | .ok none _ => .ok none
  | .error p _ => .error p

end RouteDocs.Yaml
