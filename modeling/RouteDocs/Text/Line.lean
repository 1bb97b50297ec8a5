/-!
# Lines

A line ends at a line feed, a carriage return (with the line feed that may
follow it), a vertical tab, a form feed, a file, group or record separator, a
next-line control, or a line or paragraph separator. The end of the text ends
a last line only if something stands on it.
-/
namespace RouteDocs.Text

def isLineEnd (c : Char) : Bool :=
  let n := c.toNat
  (0x0a ≤ n && n ≤ 0x0d) || (0x1c ≤ n && n ≤ 0x1e) || n == 0x85 || n == 0x2028 || n == 0x2029

/-- The lines of a text; `current` is the line being read and `afterReturn` tells that a
carriage return has just ended one, so that a line feed belongs to it. -/
def linesFrom (current : List Char) (afterReturn : Bool) : List Char → List (List Char)
  | [] => if current.isEmpty then [] else [current]
  | c :: rest =>
    if afterReturn && c == '\n' then linesFrom [] false rest
    else if isLineEnd c then current :: linesFrom [] (c == '\r') rest
    else linesFrom (current ++ [c]) false rest

/-- The lines of a text without their ends. -/
def lines (s : List Char) : List (List Char) :=
  linesFrom [] false s

/-- The text with every carriage return, alone or before a line feed, made a line feed. -/
def plainLineFeeds : List Char → List Char
  | [] => []
  | '\r' :: '\n' :: rest => '\n' :: plainLineFeeds rest
  | c :: rest => (if c = '\r' then '\n' else c) :: plainLineFeeds rest

end RouteDocs.Text
