import RouteDocs.Text.Blank
import RouteDocs.Html.Escape

/-!
# Route references

A reference to a route is a method, a blank, a slash and at least one more
character that is no blank. It takes all that follows up to a blank. Where
several methods fit, the first that makes a reference counts.
-/
namespace RouteDocs.Html

def referenceWith? (method s : List Char) : Option (List Char) :=
  if method.isPrefixOf s then
    match s.drop method.length with
    | b :: '/' :: rest =>
      let path := rest.takeWhile fun c => !Text.isBlank c
      if Text.isBlank b && !path.isEmpty then some (method ++ b :: '/' :: path) else none
    | _ => none
  else none

/-- The reference at the head of a text. With no methods, nothing stands for the method. Mirrors a
match of `route_pattern`. -/
def reference? (methods : List (List Char)) (s : List Char) : Option (List Char) :=
  (if methods.isEmpty then [[]] else methods).findSome? fun m => referenceWith? m s

/-- A piece of a text: a character, or a reference. -/
inductive TextPiece where
  | char (c : Char)
  | reference (r : List Char)
  deriving DecidableEq

/-- The pieces of a text; the first `skip` characters belong to the reference before. -/
def piecesFrom (methods : List (List Char)) : Nat → List Char → List TextPiece
  | _, [] => []
  | skip + 1, _ :: rest => piecesFrom methods skip rest
  | 0, c :: rest =>
    match reference? methods (c :: rest) with
    | some r => .reference r :: piecesFrom methods (r.length - 1) rest
    | none => .char c :: piecesFrom methods 0 rest

def pieces (methods : List String) (s : List Char) : List TextPiece :=
  piecesFrom (methods.map String.toList) 0 s

def references (methods : List String) (s : String) : List String :=
  (pieces methods s.toList).filterMap fun
    | .char _ => none
    | .reference r => some (String.ofList r)

/-- A text with its references linked; `target` names the panel of a route. -/
def linkReferences (methods : List String) (anchorPrefix : String) (target : String → String)
    (s : List Char) : List Char :=
  (pieces methods s).flatMap fun
    | .char c => [c]
    | .reference r =>
      let route := String.ofList r
      ("<a href=\"" ++ anchorPrefix ++ target route ++ "\">" ++ route ++ "</a>").toList

end RouteDocs.Html
