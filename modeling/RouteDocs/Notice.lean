import RouteDocs.Fault

/-!
# The log

What is noted while trees are processed and shown: the lists that were
inserted, the merges, the directives that were skipped and the elements of an
unknown kind. A notice has a level, the name of the log it goes to, and a text.
-/
namespace RouteDocs

/-- How much a notice matters. -/
inductive Level where
  | debug
  | warning
  deriving DecidableEq

/-- Something noted along the way. -/
inductive Notice where
  | inserted (withHeading : Bool) (kind : String) (position : Nat)
  | merging (kind : ListKind) (reference intoSection : String)
  | skipped (cause : Fault)
  | unrecognised (element : String)

namespace Notice

def level : Notice → Level
  | inserted .. | merging .. => .debug
  | skipped _ | unrecognised _ => .warning

def logName : Notice → String
  | inserted .. => "docviewer.merge.structure"
  | merging .. | skipped _ => "docviewer.merge.directives"
  | unrecognised _ => "docviewer.render.html"

def message : Notice → String
  | inserted withHeading kind position =>
    "Inserted " ++ (if withHeading then "heading and" else "empty") ++ " " ++ kind ++
      " list at position " ++ toString position
  | merging kind reference intoSection =>
    "Merging " ++ kind.label ++ " of " ++ Text.quoted reference ++ " into " ++
      Text.quoted intoSection
  | skipped cause => "Skipping directive: " ++ cause.message
  | unrecognised element =>
    "Unrecognised block element " ++ element ++ "; rendering its first child"

/-- A notice as a line of the log. -/
def line (n : Notice) : String :=
  (match n.level with
    | .debug => "DEBUG "
    | .warning => "WARNING ") ++ n.logName ++ ": " ++ n.message

end Notice
end RouteDocs
