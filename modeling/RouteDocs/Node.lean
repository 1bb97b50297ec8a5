import RouteDocs.Kind
import RouteDocs.Value

/-!
# Documentation trees

A node is a text or an element with a name, attributes and children. Text is
gathered by `flatten`, elements are found by `find` and `contents`: neither looks
inside a match.

Results:
* `isA_iff`: an element is of a kind exactly if it has the name of the kind.
* `endsSection_iff`: the headings that end a section.
* `flattenAll_append`: the text of two rows of nodes is that of the one before
  that of the other.
* `findAll_eq_flatMap`, `contentsAll_eq_flatMap`: a search in a row of nodes is
  the search in each.
-/
namespace RouteDocs

/-- A node of a documentation tree. Mirrors `Element` and its text children. -/
inductive Node where
  | text (content : String)
  | element (name : String) (attributes : Attributes) (children : List Node)

instance : Inhabited Node := ⟨.text ""⟩

namespace Node

def children : Node → List Node
  | text _ => []
  | element _ _ cs => cs

def attributes : Node → Attributes
  | text _ => []
  | element _ as _ => as

def withAttributes (as : Attributes) : Node → Node
  | text s => text s
  | element name _ cs => element name as cs

def withChildren (cs : List Node) : Node → Node
  | text s => text s
  | element name as _ => element name as cs

/-- The kind of an element with a known name. -/
def kind? : Node → Option Kind
  | text _ => none
  | element name _ _ => Kind.ofName? name

def isA (k : Kind) (n : Node) : Bool :=
  n.kind? == some k

/-- Whether a node is a heading that ends the section before it. -/
def endsSection (n : Node) : Bool :=
  n.kind?.any Kind.endsSection

def attribute? (n : Node) (key : String) : Option Value :=
  Entries.get? n.attributes key

theorem isA_iff {n : Node} {k : Kind} : n.isA k = true ↔ ∃ as cs, n = element k.name as cs := by
  cases n with
  | text s => simp [isA, kind?]
  | element name as cs => simp [isA, kind?, Kind.ofName?_eq_some_iff]

theorem isA_iff_kind? {n : Node} {k : Kind} : n.isA k = true ↔ n.kind? = some k := by
  simp [isA]

theorem isA_eq_false {n : Node} {k l : Kind} (h : n.isA k = true) (hkl : k ≠ l) :
    n.isA l = false := by
  rw [isA, isA_iff_kind?.1 h]
  simpa using hkl

theorem endsSection_iff {n : Node} :
    n.endsSection = true ↔ n.isA .head1 = true ∨ n.isA .head2 = true ∨ n.isA .head3 = true := by
  rw [isA_iff_kind?, isA_iff_kind?, isA_iff_kind?, endsSection]
  cases n.kind? with
  | none => simp
  | some k => cases k <;> simp [Kind.endsSection]

/-! ## Text -/

mutual

/-- The text beneath a node, in document order. Mirrors `flatten_to_text`. -/
def flatten : Node → String
  | text s => s
  | element _ _ cs => flattenAll cs

/-- The text beneath nodes, in document order. -/
def flattenAll : List Node → String
  | [] => ""
  | n :: rest => n.flatten ++ flattenAll rest

end

theorem flattenAll_append (ns ms : List Node) :
    flattenAll (ns ++ ms) = flattenAll ns ++ flattenAll ms := by
  induction ns with
  | nil => simp [flattenAll]
  | cons n rest ih => simp [flattenAll, ih, String.append_assoc]

/-! ## Search -/

mutual

/-- The outermost elements with a wanted name, in document order. Mirrors `find_all` for several
names. -/
def find (wanted : String → Bool) : Node → List Node
  | text _ => []
  | element name as cs => if wanted name then [element name as cs] else findAll wanted cs

/-- The outermost elements with a wanted name beneath nodes. -/
def findAll (wanted : String → Bool) : List Node → List Node
  | [] => []
  | n :: rest => n.find wanted ++ findAll wanted rest

end

theorem findAll_eq_flatMap (wanted : String → Bool) (ns : List Node) :
    findAll wanted ns = ns.flatMap (find wanted) := by
  induction ns with
  | nil => rfl
  | cons n rest ih => simp [findAll, ih]

mutual

/-- The children of the outermost elements of one name, in document order. Mirrors `find_all` for
one name. -/
def contents (wanted : String) : Node → List Node
  | text _ => []
  | element name _ cs => if name = wanted then cs else contentsAll wanted cs

/-- The children of the outermost elements of one name beneath nodes. -/
def contentsAll (wanted : String) : List Node → List Node
  | [] => []
  | n :: rest => n.contents wanted ++ contentsAll wanted rest

end

theorem contentsAll_eq_flatMap (wanted : String) (ns : List Node) :
    contentsAll wanted ns = ns.flatMap (contents wanted) := by
  induction ns with
  | nil => rfl
  | cons n rest ih => simp [contentsAll, ih]

/-- The node at an address: a list of child positions from the root. -/
def at? : Node → List Nat → Option Node
  | n, [] => some n
  | n, i :: path => (n.children[i]?).bind (·.at? path)

/-! ## New elements -/

def newHeading (level : Int) (s : String) : Node :=
  element ("head" ++ toString level) [] [text s]

def newListAttributes : Attributes :=
  [("indent", .int 4), ("~type", .text "text")]

def newDefinitionList : Node :=
  element Kind.definitionList.name newListAttributes []

end Node
end RouteDocs
