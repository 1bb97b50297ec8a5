import RouteDocs.CommandLine.Parameter
import RouteDocs.CommandLine.Path
import RouteDocs.Json.Reader
import RouteDocs.Number.Numeral
import RouteDocs.Text.Letter

/-!
# Arguments

The first argument is a command. Among those after it the options are looked
for first, up to two hyphens; what is no known option is left as it is. The
trees are then taken from the front of what is left. Environment variables
stand in for parameters that are still without a value. Only then are the words
read, the trees before the rest, and what is left over is refused last.
-/
namespace RouteDocs.CommandLine

structure Invocation where
  verb : Verb
  trees : List String
  config : Option String
  sourcePath : Option String
  verbose : Bool
  deriving DecidableEq

def verb? : String → Option Verb
  | "render" => some .render
  | "bundle" => some .bundle
  | "dump" => some .dump
  | _ => none

/-! ## Options -/

/-- What an option says: that a value follows, or what its own name means. -/
inductive OptionMeaning where
  | value (p : Parameter)
  | named (p : Parameter) (g : Given)
  deriving DecidableEq

def OptionMeaning.parameter : OptionMeaning → Parameter
  | value p => p
  | named p _ => p

def hyphened (name : String) : String :=
  name.map fun c => if c = '_' then '-' else c

def meaning? (v : Verb) (name : String) : Option OptionMeaning :=
  match hyphened name with
  | "--config" => some (.value .config)
  | "--source-path" => if v = .render then some (.value .sourcePath) else none
  | "--tree" => if v.takesSeveral then none else some (.value .trees)
  | "--trees" => if v.takesSeveral then some (.value .trees) else none
  | "--empty-trees" => if v.takesSeveral then some (.named .trees .noTrees) else none
  | "--verbose" => some (.named .verbose (.setting true))
  | "--no-verbose" => some (.named .verbose (.setting false))
  | _ => none

/-- Whether an argument starts like an option. -/
def startsAsOption (s : String) : Bool :=
  s.toList.head? == some '-'

/-- Whether an argument looks like an option: it starts with a hyphen and is no number. -/
def isOptionLike (s : String) : Bool :=
  startsAsOption s && !(Numeral.isComplex s.toList || (Numeral.markedInteger? s.toList).isSome)

/-- The name of an option, and its value if an equals sign follows. -/
def splitOption (s : String) : String × Option String :=
  let name := s.toList.takeWhile (· ≠ '=')
  match s.toList.drop name.length with
  | [] => (s, none)
  | _ :: value => (String.ofList name, some (String.ofList value))

def switch? (s : String) : Option Bool :=
  let word := String.ofList (Text.lowerAll s.toList)
  if ["true", "t", "yes", "y", "1"].contains word then some true
  else if ["false", "f", "no", "n", "0"].contains word then some false
  else none

/-- A switch by its word; no other word will do. -/
def readSwitch (s : String) : Except Fault Bool :=
  match switch? s with
  | some b => .ok b
  | none => refuse .badValue

/-- Take an option that says what it means by its name. A word after its equals sign may turn the
meaning round, or take it back if it cannot be turned. -/
def giveNamed (v : Verb) (s : Supply) (p : Parameter) (g : Given) (word : Option String) :
    Except Fault Supply := do
  let holds ← match word with
    | some w => readSwitch w
    | none => .ok true
  if holds then s.give v p g
  else
    match g with
    | .setting b => s.give v p (.setting !b)
    | _ => return s

/-- Take the options out of arguments. `awaiting` is the parameter whose value comes next. -/
def takeOptions (v : Verb) (s : Supply) (awaiting : Option Parameter) :
    List String → Except Fault (Supply × List String)
  | [] => if awaiting.isSome then refuse .missingArgument else .ok (s, [])
  | a :: rest =>
    match awaiting with
    | some p =>
      if isOptionLike a then refuse .missingArgument
      else do takeOptions v (← s.give v p (.word a)) none rest
    | none =>
      let (name, word) := splitOption a
      match if startsAsOption a then meaning? v name else none, word with
      | some (.value p), none => takeOptions v s (some p) rest
      | some (.value p), some w => do takeOptions v (← s.give v p (.word w)) none rest
      | some (.named p g), word => do takeOptions v (← giveNamed v s p g word) none rest
      | none, _ => (takeOptions v s none rest).map fun (s, left) => (s, a :: left)

/-! ## Trees by their position -/

/-- An argument that is left; `plain` tells that it stands after two hyphens. -/
structure Loose where
  text : String
  plain : Bool
  deriving DecidableEq

/-- An argument that can only be meant as an option. -/
def Loose.isStray (a : Loose) : Bool :=
  !a.plain && isOptionLike a.text

/-- Take an argument as a tree. -/
def giveTree (v : Verb) (s : Supply) (a : Loose) : Except Fault Supply :=
  if a.isStray then refuse .unknownOption else s.give v .trees (.word a.text)

/-- Take the trees from the front of what is left, unless an option has given them. -/
def takeTrees (v : Verb) (s : Supply) (loose : List Loose) : Except Fault (Supply × List Loose) :=
  if s.has .trees then .ok (s, loose)
  else if v.takesSeveral then do
    return (← loose.foldlM (giveTree v) s, [])
  else
    match loose with
    | [] => .ok (s, [])
    | a :: rest => (giveTree v s a).map fun s => (s, rest)

/-! ## The environment -/

/-- The environment variables that may stand in for a parameter, in their order, each with the
option that it is named after. -/
def standIns : List (String × String) := [
  ("DOCVIEWER_CONFIG", "--config"),
  ("DOCVIEWER_EMPTY-TREES", "--empty-trees"),
  ("DOCVIEWER_EMPTY_TREES", "--empty-trees"),
  ("DOCVIEWER_NO-VERBOSE", "--no-verbose"),
  ("DOCVIEWER_NO_VERBOSE", "--no-verbose"),
  ("DOCVIEWER_SOURCE-PATH", "--source-path"),
  ("DOCVIEWER_SOURCE_PATH", "--source-path"),
  ("DOCVIEWER_TREE", "--tree"),
  ("DOCVIEWER_TREES", "--trees"),
  ("DOCVIEWER_VERBOSE", "--verbose")]

/-- The words of an environment variable: several trees are parted by colons. -/
def wordsFor (v : Verb) (p : Parameter) (value : String) : List String :=
  if p = .trees ∧ v.takesSeveral then value.splitOn ":" else [value]

/-- Let an environment variable stand in for a parameter that had no value `before`. -/
def standIn (v : Verb) (env : String → Option String) (before s : Supply)
    (names : String × String) : Except Fault Supply :=
  match env names.1, meaning? v names.2 with
  | some value, some m =>
    if before.has m.parameter then .ok s
    else (wordsFor v m.parameter value).foldlM (fun s w => s.give v m.parameter (.word w)) s
  | _, _ => .ok s

/-! ## Words -/

/-- The trees that a word names: itself, or those of a JSON list. -/
def treesOfWord (s : String) : Except Fault (List Given) :=
  if (Text.trim s.toList).head? = some '[' then
    match Json.read (Text.symbols s) with
    | .ok (.list items) => .ok (items.map fun v => .word v.shown)
    | _ => refuse .badValue
  else .ok [.word s]

/-- The trees that are given to a command that takes several. That there are none can only be said
alone. -/
def severalTrees (gs : List Given) : Except Fault (List String) := do
  let expanded ← gs.mapM fun g =>
    match g with
    | .word s => treesOfWord s
    | g => .ok [g]
  let gs : List Given := expanded.flatten
  if gs = [.noTrees] then return []
  gs.mapM fun g =>
    match g with
    | .word s => .ok s
    | _ => refuse .repeatedOption

def wordOf? (gs : List Given) : Option String :=
  gs.head?.bind fun
    | .word s => some s
    | _ => none

def treesOf (v : Verb) (gs : List Given) : Except Fault (List String) :=
  if gs.isEmpty then refuse .missingArgument
  else if v.takesSeveral then severalTrees gs
  else .ok (wordOf? gs).toList

/-- Whether all notices are to be shown. -/
def verbosity (gs : List Given) : Except Fault Bool :=
  match gs with
  | .setting b :: _ => .ok b
  | .word s :: _ => readSwitch s
  | _ => .ok false

/-- Refuse arguments that are left over. -/
def expectNone (loose : List Loose) : Except Fault Unit :=
  if loose.any fun a => isOptionLike a.text then refuse .unknownOption
  else if loose.isEmpty then .ok ()
  else refuse .unusedArgument

/-- Understand a command line. `env` gives the environment variables. -/
def understand (args : List String) (env : String → Option String) : Except Fault Invocation :=
  match args with
  | [] => refuse .unknownCommand
  | name :: args =>
    match verb? name with
    | none => refuse .unknownCommand
    | some v => do
      let before := args.takeWhile (· ≠ "--")
      let (s, left) ← takeOptions v Supply.empty none before
      let loose := left.map (⟨·, false⟩) ++ (args.drop (before.length + 1)).map (⟨·, true⟩)
      let (s, loose) ← takeTrees v s loose
      let s ← standIns.foldlM (standIn v env s) s
      let trees ← treesOf v s.trees
      let verbose ← verbosity s.verbose
      expectNone loose
      return {
        verb := v
        trees := trees.map plainPath
        config := (wordOf? s.config).map plainPath
        sourcePath := wordOf? s.sourcePath
        verbose := verbose }

end RouteDocs.CommandLine
