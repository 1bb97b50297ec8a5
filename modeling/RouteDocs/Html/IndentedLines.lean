import RouteDocs.Text.Letter
import RouteDocs.Text.Word

/-!
# Indented lines

HTML is written line by line, two spaces deeper inside each open list or list
item. A line that closes more of them than it opens stands at the depth after
it, any other line at the depth before it.
-/
namespace RouteDocs.Html

/-- What follows the name of a list or of a list item at the head of a text. -/
def afterListName? (s : List Char) : Option (List Char) :=
  let rest := (Text.dropFolded? ['u', 'l'] s).or (Text.dropFolded? ['l', 'i'] s)
  rest.filter fun r => !Text.isWordAt r.head?

/-- By how much the tag at the head of a text deepens what follows it: one for an opening tag of
a list or a list item, minus one for a closing tag, zero for anything else. -/
def tagChange : List Char → Int
  | '<' :: '/' :: rest => if (afterListName? rest).isSome then -1 else 0
  | '<' :: rest => if (afterListName? rest).isSome then 1 else 0
  | _ => 0

/-- By how much a line deepens those after it. -/
def lineChange : List Char → Int
  | [] => 0
  | c :: rest => tagChange (c :: rest) + lineChange rest

/-- Lines that have been written, and the depth after them. Mirrors `IndentedLines`. -/
structure IndentedLines where
  depth : Nat
  written : List String

namespace IndentedLines

def empty : IndentedLines := ⟨0, []⟩

def indented (depth : Nat) (line : String) : String :=
  String.ofList (List.replicate (2 * depth) ' ') ++ line

def addLine (ls : IndentedLines) (line : String) : IndentedLines :=
  let change := lineChange line.toList
  let after := (ls.depth + change).toNat
  ⟨after, ls.written ++ [indented (min ls.depth after) line]⟩

def add (ls : IndentedLines) (lines : List String) : IndentedLines :=
  lines.foldl addLine ls

def text (ls : IndentedLines) : String :=
  String.join (ls.written.map (· ++ "\n"))

end IndentedLines
end RouteDocs.Html
