/-!
# Escaped text

Text stands in a web page with the characters that have a meaning there
written as entities. Between the quotes of an attribute the quotes are written
as entities too.
-/
namespace RouteDocs.Html

def escapeChar (quotes : Bool) (c : Char) : List Char :=
  match c with
  | '&' => "&amp;".toList
  | '<' => "&lt;".toList
  | '>' => "&gt;".toList
  | '"' => if quotes then "&quot;".toList else [c]
  | '\'' => if quotes then "&#x27;".toList else [c]
  | c => [c]

def escapeChars (quotes : Bool) (s : List Char) : List Char :=
  s.flatMap (escapeChar quotes)

def escape (quotes : Bool) (s : String) : String :=
  String.ofList (escapeChars quotes s.toList)

end RouteDocs.Html
