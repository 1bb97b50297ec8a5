import RouteDocs.Html.Escape
import RouteDocs.Html.Highlighter
import RouteDocs.Text.Line

/-!
# Code as plain text

The highlighter that the program is run with. It knows the styles by their names
and no language but plain text: code is shown as it is, without its blank ends.
-/
namespace RouteDocs.Html.PlainHighlighter

def styles : List String := [
  "abap", "algol", "algol_nu", "arduino", "autumn", "bw", "borland", "coffee", "colorful",
  "default", "dracula", "emacs", "friendly_grayscale", "friendly", "fruity", "github-dark",
  "gruvbox-dark", "gruvbox-light", "igor", "inkpot", "lightbulb", "lilypond", "lovelace", "manni",
  "material", "monokai", "murphy", "native", "night-owl", "nord-darker", "nord", "one-dark",
  "paraiso-dark", "paraiso-light", "pastie", "perldoc", "rainbow_dash", "rrt", "sas",
  "solarized-dark", "solarized-light", "staroffice", "stata-dark", "stata-light", "tango", "trac",
  "vim", "vs", "xcode", "zenburn"]

/-- The lines of a block of code: with plain line feeds, and none at either end. -/
def codeLines (s : List Char) : List Char :=
  let s := match s with
    | c :: rest => if c = Char.ofNat 0xfeff then rest else s
    | [] => []
  let s := (Text.plainLineFeeds s).dropWhile (· == '\n')
  (s.reverse.dropWhile (· == '\n')).reverse

def block (code : String) : String :=
  codeOpening ++ ("<pre><span></span>" ++
    String.ofList (escapeChars false (codeLines code.toList)) ++ "\n</pre></div>\n")

theorem opening_block (code : String) : codeOpening.toList <+: (block code).toList := by
  rw [block, String.toList_append]
  exact List.prefix_append _ _

instance : Highlighter where
  knowsStyle := styles.contains
  knowsLanguage := (· == plainLanguage)
  highlight _ _ code := block code
  opening_highlight _ _ := opening_block

end RouteDocs.Html.PlainHighlighter
