import RouteDocs.Text.Letter

/-!
# Module names

A module is named by the path of its file below the innermost `lib` directory,
without the `.pm` at its end. Case does not matter for either. A path that has
not this form is its own name.
-/
namespace RouteDocs.ModuleName

/-- A text without a file ending, if it has one and something before it. -/
def beforeEnding? (s : List Char) : Option (List Char) :=
  let stem := s.take (s.length - 3)
  match Text.dropFolded? ['.', 'p', 'm'] (s.drop stem.length) with
  | some [] => if stem.isEmpty then none else some stem
  | _ => none

/-- The name below the last `lib` directory that starts after the head of a path; `inside` tells
that something stands before the text. -/
def belowLibrary? (inside : Bool) : List Char → Option (List Char)
  | [] => none
  | c :: rest =>
    (belowLibrary? true rest).or
      (if inside then (Text.dropFolded? "/lib/".toList (c :: rest)).bind beforeEnding? else none)

/-- The name of the module in a file. A line feed at the very end of the path is kept. Mirrors
`DocTree.module_id` before it is made unique. -/
def ofPath (path : String) : String :=
  let s := path.toList
  let (line, ending) := if s.getLast? = some '\n' then (s.dropLast, ['\n']) else (s, [])
  if line.contains '\n' then path
  else
    match belowLibrary? false line with
    | some name => String.ofList (name ++ ending)
    | none => path

end RouteDocs.ModuleName
