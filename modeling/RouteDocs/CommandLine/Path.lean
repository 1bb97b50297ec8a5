/-!
# Paths

The path of a file is written without doubled slashes, without parts that are
a single point, and without a slash at its end. Two slashes at its very start
are kept.
-/
namespace RouteDocs.CommandLine

def pathNames (path : String) : List String :=
  ((path.toList.splitOn '/').map String.ofList).filter fun name => name ≠ "" ∧ name ≠ "."

/-- The slashes at the start of a path. -/
def pathRoot (path : String) : String :=
  match path.toList with
  | '/' :: '/' :: '/' :: _ => "/"
  | '/' :: '/' :: _ => "//"
  | '/' :: _ => "/"
  | _ => ""

def plainPath (path : String) : String :=
  let plain := pathRoot path ++ "/".intercalate (pathNames path)
  if plain = "" then "." else plain

end RouteDocs.CommandLine
