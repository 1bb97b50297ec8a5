import RouteDocs.CommandLine.Arguments
import RouteDocs.CommandLine.Folder
import RouteDocs.Config.File
import RouteDocs.Document
import RouteDocs.Html.PlainHighlighter
import RouteDocs.TreeFile

/-!
# Commands

A command reads its configuration, then one tree after the other, and prints a
page, the fragments of a page that several trees share, or a prepared tree.
What goes wrong in the documents or the configuration is told on the error
stream, after the notices made so far.
-/
namespace RouteDocs.CommandLine

/-- How a command ends: with an exit code, or by a fault that is not its to report. -/
inductive Ending where
  | exit (code : Nat)
  | fault (f : Fault)

/-- What a command leaves behind. -/
structure Outcome where
  output : String
  errors : String
  ending : Ending

/-- What stands at every path. -/
abbrev Files := String → PathEntry

/-- A command at work: it may fail, and the notices made before stay. -/
abbrev Job (α : Type) := EStateM Fault (List Notice) α

namespace Job

/-- A job that notes nothing. -/
def ofExcept {α : Type} : Except Fault α → Job α
  | .ok a => pure a
  | .error f => throw f

/-- Ask something of a document; what it notes is noted. -/
def ask {α : Type} (d : Document) (action : Document.Action α) : Job (α × Document) := fun log =>
  match action.run { d with log := log } with
  | .ok a d => .ok (a, d) d.log
  | .error f d => .error f d.log

def prepare [Html.Highlighter] (c : Config) (path : String) (seed : List String) (p : Page) :
    Job Document :=
  fun log =>
    match Document.ofPage c (some path) seed p with
    | .ok d => .ok d (log ++ d.log)
    | .error (f, w) => .error f (log ++ w.log)

end Job

/-- What a configuration file holds, if it exists. -/
def configContent (path : String) : PathEntry → Except Fault (Option (List Text.Symbol))
  | .file symbols => .ok (some symbols)
  | .folder => .error (.isFolder path)
  | .tooLong => .error .nameTooLong
  | _ => .ok none

def readConfig (files : Files) : Option String → Job Config
  | none => return Config.default
  | some path => do
    let content ← Job.ofExcept (configContent path (files path))
    let c ← Job.ofExcept (Config.ofFile path content)
    match c.narrowed? with
    | some c => return c
    | none => throw .loneHalf

/-- What a tree file holds. -/
def treeContent (path : String) : PathEntry → Except Fault (List Text.Symbol)
  | .file symbols => .ok symbols
  | .folder => .error (.isFolder path)
  | .nothing => .error (.fileMissing path)
  | .behindFile => .error (.behindFile path)
  | .tooLong => .error .nameTooLong
  | .zero => .error .zeroInName

def openTree : Node × String → Job (Page × String)
  | (root, module) =>
    match Page.ofNode? root with
    | some p => return (p, module)
    | none => throw .rootIsText

theorem openTree_ok_iff {root : Node} {module module' : String} {p : Page}
    {log log' : List Notice} : openTree (root, module) log = .ok (p, module') log' ↔
      Page.ofNode? root = some p ∧ module = module' ∧ log = log' := by
  rw [openTree]
  cases Page.ofNode? root with
  | none => exact iff_of_false nofun nofun
  | some q =>
    constructor
    · intro h
      cases h
      exact ⟨rfl, rfl, rfl⟩
    · rintro ⟨h, rfl, rfl⟩
      cases h
      rfl

def readTree (files : Files) (path : String) : Job (Page × String) := do
  let content ← Job.ofExcept (treeContent path (files path))
  let tree ← Job.ofExcept (TreeFile.read path content)
  openTree tree

def render [Html.Highlighter] (files : Files) (i : Invocation) (c : Config) (path : String) :
    Job String := do
  let (p, module) ← readTree files path
  let d ← Job.prepare c ((i.sourcePath.filter (· ≠ "")).getD module) [] p
  let (html, _) ← Job.ask d (Document.html d.tree)
  return html

def dump [Html.Highlighter] (files : Files) (c : Config) (path : String) : Job String := do
  let (p, module) ← readTree files path
  let d ← Job.prepare c module [] p
  return TreeFile.write d.tree

/-- A key of the routes as the key of a mapping: a text or a number. -/
def keyText? : Value → Option String
  | .text s => some s
  | .int n => some (toString n)
  | .real x => some (x.format Binary64.fileFormat)
  | _ => none

def routesValue : Routes → Except Fault Value
  | rs => do
    let members ← rs.mapM fun (key, htmls) =>
      match keyText? key with
      | some k => .ok (k, Value.list (htmls.map .text))
      | none => .error .wrongType
    return .mapping members

structure Fragments where
  moduleId : String
  index : String
  routes : Routes

/-- The fragments of several trees, each read in its turn, with the identifiers in use before. -/
def fragments {α : Type} [Html.Highlighter] (read : α → Job (Page × String)) (c : Config) :
    List String → List α → Job (List Fragments)
  | _, [] => return []
  | seed, a :: rest => do
    let (p, module) ← read a
    let d ← Job.prepare c module seed p
    let (id, d) ← Job.ask d Document.moduleId
    let (index, d) ← Job.ask d Document.index
    let (routes, d) ← Job.ask d Document.routes
    return ⟨id, index, routes⟩ :: (← fragments read c d.ids.issued rest)

def Fragments.toValue (f : Fragments) : Except Fault Value := do
  return .mapping [
    ("module_id", .text f.moduleId),
    ("index", .text f.index),
    ("routes", ← routesValue f.routes)]

def bundle [Html.Highlighter] (files : Files) (c : Config) (paths : List String) : Job String := do
  let all ← fragments (readTree files) c [] paths
  let values ← Job.ofExcept (all.mapM Fragments.toValue)
  return Json.write (.list values)

def job [Html.Highlighter] (files : Files) (i : Invocation) : Job String := do
  let c ← readConfig files i.config
  match i.verb, i.trees with
  | .bundle, paths => bundle files c paths
  | .render, path :: _ => render files i c path
  | .dump, path :: _ => dump files c path
  | _, [] => throw (.usage .missingArgument)

/-- The notices that are shown: all of them, or the warnings. -/
def shownNotices (verbose : Bool) (log : List Notice) : String :=
  String.join ((log.filter fun n => verbose || n.level == .warning).map fun n => n.line ++ "\n")

def run [Html.Highlighter] (files : Files) (i : Invocation) : Outcome :=
  match (job files i).run [] with
  | .ok s log => ⟨s ++ "\n", shownNotices i.verbose log, .exit 0⟩
  | .error f log =>
    let notices := shownNotices i.verbose log
    if f.isReported then ⟨"", notices ++ "error: " ++ f.message ++ "\n", .exit 1⟩
    else ⟨"", notices, .fault f⟩

def runArguments [Html.Highlighter] (args : List String) (env : String → Option String)
    (files : Files) : Outcome :=
  match understand args env with
  | .ok i => run files i
  | .error f => ⟨"", "", .fault f⟩

def Invocation.files (i : Invocation) : List String :=
  i.config.toList ++ i.trees

end RouteDocs.CommandLine
