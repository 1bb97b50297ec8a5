import RouteDocs.Html.Replacement

/-!
# Marker words

A marker word, with a colon that may follow it, is shown as a label. The empty
word is found between any two characters, and before every colon it takes the
colon.
-/
namespace RouteDocs.Html

def labelTemplate (word cssClass : String) : List Char :=
  ("<span class=\"label " ++ cssClass ++ "\">" ++ word ++ "</span>").toList

/-- A text with the marker word replaced; the first `skip` characters belong to the word before,
and `held` is what has been read of it. -/
def markWord (word : List Char) (ps : List ReplacementPart) : Nat → List Char → List Char
  | skip + 1, _ :: rest => markWord word ps skip rest
  | _, [] => if word.isEmpty then Replacement.fill [] ps else []
  | 0, c :: rest =>
    if word.isPrefixOf (c :: rest) then
      let size := word.length
      let colon := ((c :: rest).drop size).head? == some ':'
      let found := word ++ if colon then [':'] else []
      match found with
      | [] => Replacement.fill [] ps ++ c :: markWord word ps 0 rest
      | _ :: more => Replacement.fill found ps ++ markWord word ps more.length rest
    else c :: markWord word ps 0 rest

/-- A text with its marker words replaced by their labels, one marker after the other. -/
def markAll (markers : List (String × String)) (s : List Char) : Except Fault (List Char) :=
  match markers with
  | [] => .ok s
  | (word, cssClass) :: rest =>
    match Replacement.parts (labelTemplate word cssClass) with
    | .error f => .error f
    | .ok ps => markAll rest (markWord word.toList ps 0 s)

end RouteDocs.Html
