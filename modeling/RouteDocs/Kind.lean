/-!
# Kinds of elements

The element names of a documentation tree that have a meaning of their own.
Every other name is unknown, and its element is shown by its first child.

Results:
* `ofName?_eq_some_iff`: a name has a kind exactly if it is the name of that kind.
-/
namespace RouteDocs

/-- The kinds of elements with a meaning of their own. Mirrors `ElementKind`. -/
inductive Kind where
  | document
  | head1
  | head2
  | head3
  | head4
  | paragraph
  | definitionList
  | term
  | directive
  | data
  | italic
  | bold
  | code
  | verbatim
  | link
  deriving DecidableEq

namespace Kind

def all : List Kind :=
  [document, head1, head2, head3, head4, paragraph, definitionList, term, directive, data, italic,
    bold, code, verbatim, link]

def name : Kind → String
  | document => "Document"
  | head1 => "head1"
  | head2 => "head2"
  | head3 => "head3"
  | head4 => "head4"
  | paragraph => "Para"
  | definitionList => "over-text"
  | term => "item-text"
  | directive => "for"
  | data => "Data"
  | italic => "I"
  | bold => "B"
  | code => "C"
  | verbatim => "Verbatim"
  | link => "L"

def ofName? (s : String) : Option Kind :=
  all.find? fun k => k.name == s

def headingLevel : Kind → Option Nat
  | head1 => some 1
  | head2 => some 2
  | head3 => some 3
  | head4 => some 4
  | _ => none

/-- The headings that end the section before them: levels one to three. -/
def endsSection : Kind → Bool
  | head1 | head2 | head3 => true
  | _ => false

theorem mem_all (k : Kind) : k ∈ all := by
  cases k <;> decide

theorem name_injective {k l : Kind} (h : k.name = l.name) : k = l := by
  revert h
  cases k <;> cases l <;> decide

theorem ofName?_eq_some_iff {s : String} {k : Kind} : ofName? s = some k ↔ s = k.name := by
  constructor
  · intro h
    have := List.find?_some h
    exact (beq_iff_eq.1 this).symm
  · rintro rfl
    cases k <;> decide

end Kind
end RouteDocs
