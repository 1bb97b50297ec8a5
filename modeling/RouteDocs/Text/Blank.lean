/-!
# Blank characters

Blanks are the spaces, tabs, line breaks and information separators of every
script. `trim` cuts them from both ends and `words` splits at their runs.
-/
namespace RouteDocs.Text

def isBlank (c : Char) : Bool :=
  let n := c.toNat
  (0x09 ≤ n && n ≤ 0x0d) || (0x1c ≤ n && n ≤ 0x20) || n == 0x85 || n == 0xa0 || n == 0x1680 ||
    (0x2000 ≤ n && n ≤ 0x200a) || n == 0x2028 || n == 0x2029 || n == 0x202f || n == 0x205f ||
    n == 0x3000

/-- What satisfies a test cut from both ends. -/
def trimWith {α : Type} (blank : α → Bool) (s : List α) : List α :=
  ((s.dropWhile blank).reverse.dropWhile blank).reverse

/-- The pieces between runs of what satisfies a test; `current` is the piece being read. -/
def piecesFrom {α : Type} (blank : α → Bool) (current : List α) : List α → List (List α)
  | [] => if current.isEmpty then [] else [current]
  | c :: rest =>
    if blank c then
      if current.isEmpty then piecesFrom blank [] rest else current :: piecesFrom blank [] rest
    else piecesFrom blank (current ++ [c]) rest

/-- The text without the blanks at either end. -/
def trim (s : List Char) : List Char :=
  trimWith isBlank s

/-- The words of a text, in order; none is empty. -/
def words (s : List Char) : List (List Char) :=
  piecesFrom isBlank [] s

end RouteDocs.Text
