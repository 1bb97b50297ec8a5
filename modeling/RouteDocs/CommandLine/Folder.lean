import RouteDocs.CommandLine.Path
import RouteDocs.Text.Utf8

/-!
# Folders

Files lie in folders within the folder that a command runs in. A path is walked
part by part: each part is looked up in the folder come to so far, and `..`
leads back to the folder around it. What lies outside is not known but for the
folders on the way out.

Results:
* `walk_append`: a walk along more names goes on from where the first ones led.
-/
namespace RouteDocs.CommandLine

inductive PathEntry where
  | file (content : List Text.Symbol)
  | folder
  | nothing
  /-- The path goes on behind a file. -/
  | behindFile
  /-- A part, or the whole path, has more bytes than a name can have. -/
  | tooLong
  /-- The path has a character in it that ends names. -/
  | zero

/-- The address of a place: the names that lead to it, the last one first. -/
abbrev Address := List String

/-- The files within a folder, and the folders that they need. -/
structure Folder where
  files : List (Address × List Text.Symbol)
  folders : List Address

namespace Folder

/-- The greatest number of bytes of a name. -/
def maxNameSize : Nat := 255

/-- The greatest number of bytes of a path. -/
def maxPathSize : Nat := 4095

/-- The place outside of all folders. -/
def outermost : Address := ["/"]

/-- Whether a folder is at a place: one that files need, or one on the way out. -/
def isFolder (d : Folder) (p : Address) : Bool :=
  p.all (· == "..") || p == outermost || d.folders.contains p

/-- What a file at a place holds. -/
def content? (d : Folder) (p : Address) : Option (List Text.Symbol) :=
  (d.files.find? fun f => f.1 == p).map (·.2)

/-- The place around a place. -/
def around : Address → Address
  | [] => [".."]
  | ".." :: rest => ".." :: ".." :: rest
  | ["/"] => outermost
  | _ :: rest => rest

/-- The place that a name leads to. -/
def enter (p : Address) (name : String) : Address :=
  if name = ".." then around p else name :: p

/-- Walk from a place along names: the place come to, or what stands in the way. -/
def walk (d : Folder) (p : Address) : List String → Except PathEntry Address
  | [] => .ok p
  | name :: rest =>
    if d.isFolder p then
      if maxNameSize < name.utf8ByteSize then .error .tooLong else walk d (enter p name) rest
    else if (d.content? p).isSome then .error .behindFile
    else .error .nothing

theorem walk_append (d : Folder) (p : Address) (names more : List String) :
    d.walk p (names ++ more) = (d.walk p names).bind fun q => d.walk q more := by
  induction names generalizing p with
  | nil => rfl
  | cons name names ih =>
    simp only [List.cons_append, walk]
    split
    · split
      · rfl
      · exact ih (enter p name)
    · split <;> rfl

def startOf (path : String) : Address :=
  if pathRoot path = "" then [] else outermost

def entry (d : Folder) (path : String) : PathEntry :=
  if path.toList.contains (Char.ofNat 0) then .zero
  else if maxPathSize < path.utf8ByteSize then .tooLong
  else
    match d.walk (startOf path) (pathNames path) with
    | .error e => e
    | .ok p =>
      if d.isFolder p then .folder
      else
        match d.content? p with
        | some symbols => .file symbols
        | none => .nothing

/-- The places that a path passes through before its last name, all of them folders. -/
def passed (p : Address) : List String → List Address
  | [] => []
  | name :: rest => p :: passed (enter p name) rest

def empty : Folder := ⟨[], []⟩

/-- Put a file at a path, with the folders that it needs. -/
def put (d : Folder) (path : String) (symbols : List Text.Symbol) : Folder :=
  let names := pathNames path
  ⟨(names.foldl enter (startOf path), symbols) :: d.files,
    passed (startOf path) names ++ d.folders⟩

def ofFiles (files : List (String × List Text.Symbol)) : Folder :=
  files.foldl (fun d f => d.put f.1 f.2) empty

end Folder
end RouteDocs.CommandLine
