import RouteDocs.Text.Blank
import RouteDocs.Text.Letter

/-!
# Identifiers

An identifier names a place on a web page: an ASCII letter followed by ASCII
letters, digits, hyphens and underscores. `normalize` makes one of any text,
and an `Identifiers` pool hands out identifiers that it has not handed out
before, by numbering those that are taken.
-/
namespace RouteDocs

namespace Identifier

def isLetter (c : Char) : Bool := c.isAlpha

/-- A character that an identifier may hold. -/
def isAllowed (c : Char) : Bool := c.isAlphanum || c == '-' || c == '_'

/-- The text without the spans that start with one character, end with the first of another and
hold something between them. `pending` is what has been read of a span, last first. -/
def dropSpans (first last : Char) : Option (List Char) → List Char → List Char
  | none, [] => []
  | some held, [] => first :: held.reverse
  | none, c :: rest =>
    if c = first then dropSpans first last (some []) rest
    else c :: dropSpans first last none rest
  | some held, c :: rest =>
    if c = last then
      if held.isEmpty then first :: last :: dropSpans first last none rest
      else dropSpans first last none rest
    else dropSpans first last (some (c :: held)) rest

/-- The text with every run of characters that are not allowed made one hyphen; `inRun` tells
that such a run is being read. -/
def joinRuns (inRun : Bool) : List Char → List Char
  | [] => []
  | c :: rest =>
    if isAllowed c then c :: joinRuns false rest
    else if inRun then joinRuns true rest
    else '-' :: joinRuns true rest

/-- The letters of a text and what lies between them: in small letters, without tags and
entities, and without the blanks at either end. -/
def plain (s : List Char) : List Char :=
  Text.trim (dropSpans '&' ';' none (dropSpans '<' '>' none (Text.lowerAll s)))

/-- A text without letters, prefixed so that it has some. -/
def withLetter (fallback s : List Char) : List Char :=
  if s.any isLetter then s else fallback ++ s

/-- The identifier that a text stands for. -/
def normalizeChars (fallback s : List Char) : List Char :=
  joinRuns false ((withLetter fallback (plain s)).dropWhile fun c => !isLetter c)

/-- The identifier that a text stands for; `fallback` is put before a text without letters. Mirrors
`IdentifierAllocator.normalize`. -/
def normalize (fallback s : String) : String :=
  String.ofList (normalizeChars fallback.toList s.toList)

end Identifier

/-- The identifiers in use on a page, and the prefix for texts without letters. Mirrors
`IdentifierAllocator`. -/
structure Identifiers where
  issued : List String
  fallback : String

namespace Identifiers

/-- An identifier put among those in use. -/
def insert (issued : List String) (s : String) : List String :=
  if issued.contains s then issued else issued ++ [s]

/-- A pool in which some identifiers are in use. -/
def ofSeed (seed : List String) (fallback : String) : Identifiers :=
  ⟨seed.foldl insert [], fallback⟩

def normalize (ids : Identifiers) (s : String) : String :=
  Identifier.normalize ids.fallback s

/-- The first of the numbered forms of an identifier that is not in use. One of the first
`issued.length + 1` is free, there being more of them than identifiers in use. -/
def numbered (ids : Identifiers) (base : String) : String :=
  let free := fun k : Nat => !ids.issued.contains (base ++ toString k)
  base ++ toString (((List.range (ids.issued.length + 1)).find? free).getD 0)

/-- An identifier for a text that is not in use. -/
def fresh (ids : Identifiers) (s : String) : String :=
  let base := ids.normalize s
  if ids.issued.contains base then ids.numbered base else base

def allocate (ids : Identifiers) (s : String) : String × Identifiers :=
  let new := ids.fresh s
  (new, { ids with issued := insert ids.issued new })

/-- The identifiers in use, in order. -/
def sorted (ids : Identifiers) : List String :=
  ids.issued.mergeSort fun a b => a ≤ b

end Identifiers
end RouteDocs
