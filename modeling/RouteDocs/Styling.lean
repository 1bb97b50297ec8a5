import RouteDocs.Page
import RouteDocs.Fault

/-!
# Classes of parameter lists

Every definition list after a subsection heading gets the CSS class that the
heading stands for, and so do the lists directly nested in it. A heading
without a class of its own leaves the class in force; a heading of level one,
two or three ends it. Attributes that are no mapping cannot take a class: there
the styling ends, and what was styled before stays.
-/
namespace RouteDocs.Styling

def htmlAttributesKey : String := "html_attributes"

/-- The attributes with a CSS class among their HTML attributes, unless these are no mapping. -/
def putClass? (as : Attributes) (c : String) : Option Attributes :=
  match Entries.get? as htmlAttributesKey with
  | none => some (Entries.put as htmlAttributesKey (.mapping [("class", .text c)]))
  | some (.mapping html) =>
    some (Entries.put as htmlAttributesKey (.mapping (Entries.put html "class" (.text c))))
  | some _ => none

/-- The class in force after a node. -/
def classAfter (classes : Entries String String) (c : Option String) (n : Node) : Option String :=
  match n.kind? with
  | some .head4 => (Entries.get? classes n.flatten).or c
  | some k => if k.endsSection then none else c
  | none => c

/-- A class that lists are given: the empty one is not. -/
def effective (c : Option String) : Option String :=
  c.filter (· ≠ "")

mutual

/-- Style one node, with the class in force before it. -/
def styleNode (classes : Entries String String) (c : Option String) : Node → Node × Option Fault
  | .text s => (.text s, none)
  | .element name as cs =>
    match Kind.ofName? name, effective c with
    | some .definitionList, some given =>
      match putClass? as given with
      | none => (.element name as cs, some .wrongType)
      | some as =>
        let (cs, fault) := styleNodes classes c cs
        (.element name as cs, fault)
    | _, _ => (.element name as cs, none)

/-- Style nodes in order, with the class in force before them, up to the first that cannot take
its class. -/
def styleNodes (classes : Entries String String) (c : Option String) :
    List Node → List Node × Option Fault
  | [] => ([], none)
  | n :: rest =>
    match styleNode classes c n with
    | (n', some fault) => (n' :: rest, some fault)
    | (n', none) =>
      let (rest, fault) := styleNodes classes (classAfter classes c n) rest
      (n' :: rest, fault)

end

/-- Style the top level of a page. Mirrors `apply_list_classes`. -/
def stylePage (classes : Entries String String) (c : Option String) (p : Page) :
    Page × Option Fault :=
  let (nodes, fault) := styleNodes classes c p.nodes
  (p.withNodes nodes, fault)

end RouteDocs.Styling
