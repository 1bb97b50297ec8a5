import RouteDocs.DefinitionList
import RouteDocs.Draft
import RouteDocs.Text.Blank
import RouteDocs.Text.Line

/-!
# Directives

A directive asks, in a line such as `input-from GET /widgets`, that a section
take in the terms of another section's list. `run` carries out the directives
of a draft in document order, each in the section it stands in, and then takes
them off the page. A request that stands in no section, or whose source has no
list, ends a strict run and is skipped by a lenient one. An ended run leaves
the merges made so far and every directive on the page.
-/
namespace RouteDocs

/-- One line of a directive: the kind of list and the section to take it from. -/
structure Request where
  kind : ListKind
  reference : String
  deriving DecidableEq

/-- Which directives are meant, and whether a request that cannot be met ends the run. -/
structure DirectiveRulesOf (τ : Type) where
  target : τ
  strict : Bool
  deriving DecidableEq

/-- Which directives are meant, by a text. -/
abbrev DirectiveRules := DirectiveRulesOf String

namespace Request

/-- What follows a word at the head of a text. -/
def dropWord? : List Char → List Char → Option (List Char)
  | [], rest => some rest
  | c :: word, d :: rest => if c = d then dropWord? word rest else none
  | _ :: _, [] => none

def reference? (kind : ListKind) (line : List Char) : Option String :=
  match dropWord? (kind.word ++ "-from").toList line with
  | some (c :: rest) =>
    if Text.isBlank c && !rest.isEmpty then some (String.ofList (Text.trim rest)) else none
  | _ => none

def ofLine? (line : List Char) : Option Request :=
  let line := Text.trim line
  match reference? .input line with
  | some r => some ⟨.input, r⟩
  | none => (reference? .output line).map (⟨.output, ·⟩)

def ofText (s : String) : List Request :=
  (Text.lines s.toList).filterMap ofLine?

/-- The requests of a directive: those in the texts right inside its data elements. -/
def ofDirective (n : Node) : List Request :=
  (n.contents Kind.data.name).flatMap fun
    | .text s => ofText s
    | .element .. => []

end Request

namespace Directive

def isFor (target : String) (n : Node) : Bool :=
  n.isA .directive &&
    match n.attribute? "target" with
    | some (.text t) => t == target
    | _ => false

/-- The mark of a directive that has been carried out. -/
def deleteKey : String := "delete"

def mark (n : Node) : Node :=
  n.withAttributes (Entries.put n.attributes deleteKey (.bool true))

/-- A node that is to be taken off the page. -/
def isMarked (n : Node) : Bool :=
  (n.attribute? deleteKey).any Value.isSet

/-- A draft with what was noted while it was worked on. -/
structure Work where
  draft : Draft
  log : List Notice

/-- A step of the work: it may fail, and what was done before the failure stays. -/
abbrev Step (α : Type) := EStateM Fault Work α

/-- A request that cannot be met: it merges nothing or ends the run. -/
def refuse (rules : DirectiveRules) (cause : Fault) : Step Nat :=
  if rules.strict then throw cause
  else do
    modify fun w => { w with log := w.log ++ [.skipped cause] }
    return 0

def mergeBlocks (p : Page) (source dest : Nat) : Page :=
  match p.node? source with
  | some n => p.modify dest n.mergeList
  | none => p

/-- Carry out a request that stands in a section; the number of merges. Mirrors
`DirectiveProcessor._merge`. -/
def carryOut (rules : DirectiveRules) (routeSection : Option String) (r : Request) : Step Nat := do
  match routeSection with
  | none => refuse rules (.outsideSection r.kind r.reference)
  | some into =>
    modify fun w => { w with draft := w.draft.withCatalog }
    let w ← get
    match w.draft.lookup ⟨some r.reference, some r.kind.label⟩ with
    | none => refuse rules (.sourceMissing r.kind r.reference into)
    | some source =>
      let (d, dest, notices) := w.draft.ensureList into r.kind.label
      set ({ draft := { d with page := mergeBlocks d.page source dest }
             log := w.log ++ notices ++ [.merging r.kind r.reference into] } : Work)
      return 1

/-- Carry out requests in order; the number of merges. -/
def carryOutAll (rules : DirectiveRules) (routeSection : Option String) : List Request → Step Nat
  | [] => return 0
  | r :: rest => do
    let m ← carryOut rules routeSection r
    let n ← carryOutAll rules routeSection rest
    return m + n

/-- Carry out the directives among blocks; the number of merges. -/
def scan (rules : DirectiveRules) : Option String → List Block → Step Nat
  | _, [] => return 0
  | routeSection, b :: rest => do
    if b.node.isA .head3 then scan rules (some b.node.flatten) rest
    else if isFor rules.target b.node then
      let m ← carryOutAll rules routeSection (Request.ofDirective b.node)
      modify fun w =>
        { w with draft := { w.draft with page := w.draft.page.modify b.label mark } }
      let n ← scan rules routeSection rest
      return m + n
    else scan rules routeSection rest

/-- Carry out the directives of a draft and take them off the page; the number of merges. Mirrors
`DirectiveProcessor.run`. -/
def run (rules : DirectiveRules) : Step Nat := do
  let w ← get
  let merges ← scan rules none w.draft.page.blocks
  modify fun w =>
    { w with draft := { w.draft with page := w.draft.page.keep fun n => !isMarked n } }
  return merges

end Directive
end RouteDocs
