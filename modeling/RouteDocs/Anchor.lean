import RouteDocs.Identifier
import RouteDocs.Node

/-!
# Anchors

The heading of a route keeps the identifier of its place on the page in an
attribute. It is handed out once, when it is first asked for; a heading that
brings one along keeps it.
-/
namespace RouteDocs.Anchor

/-- The attribute that holds an anchor. -/
def key : String := "anchor"

/-- The anchor among attributes; null is none. -/
def ofAttributes? (as : Attributes) : Option Value :=
  match Entries.get? as key with
  | some .null => none
  | v => v

/-- Attributes with an anchor, handed out for a text if there is none. Mirrors `route_anchor`. -/
def ensure (ids : Identifiers) (label : String) (as : Attributes) : Attributes × Identifiers :=
  match ofAttributes? as with
  | some _ => (as, ids)
  | none =>
    let (id, ids) := ids.allocate label
    (Entries.put as key (.text id), ids)

def ensureNode (ids : Identifiers) : Node → Node × Identifiers
  | .text s => (.text s, ids)
  | .element name as cs =>
    let (as, ids) := ensure ids (Node.flattenAll cs) as
    (.element name as cs, ids)

def ofNode (n : Node) : Value :=
  (ofAttributes? n.attributes).getD .null

mutual

/-- A tree in which the outermost elements with a wanted name that are routes have anchors. -/
def ensureWithin (wanted isRoute : String → Bool) (ids : Identifiers) : Node → Node × Identifiers
  | .text s => (.text s, ids)
  | .element name as cs =>
    if wanted name then
      if isRoute name then ensureNode ids (.element name as cs) else (.element name as cs, ids)
    else
      let (cs, ids) := ensureAll wanted isRoute ids cs
      (.element name as cs, ids)

/-- Trees in which the outermost elements with a wanted name that are routes have anchors. -/
def ensureAll (wanted isRoute : String → Bool) (ids : Identifiers) :
    List Node → List Node × Identifiers
  | [] => ([], ids)
  | n :: rest =>
    let (n, ids) := ensureWithin wanted isRoute ids n
    let (rest, ids) := ensureAll wanted isRoute ids rest
    (n :: rest, ids)

end

end RouteDocs.Anchor
