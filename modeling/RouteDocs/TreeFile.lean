import RouteDocs.Json.Reader
import RouteDocs.Json.Writer
import RouteDocs.Node.Nested

/-!
# Tree files

A tree file is a JSON text: a tree as nested lists, alone or as the member
`tree` of a mapping that may also give the path of the module. It is read from
its start, so what is reported is the first thing that is wrong in it.

Results:
* `readMember_length`: a member takes at least one token.
-/
namespace RouteDocs.TreeFile

open Json (Token)

structure Wrapper where
  tree : Option Value
  path : Option String

/-- Whether an integer fits into 64 bits, with a sign or without. -/
def fitsWord (n : Int) : Bool :=
  if n < 0 then n.natAbs ≤ Nat.pow 2 63 else n.natAbs < Nat.pow 2 64

/-- The name of the type of the value that a token starts. An integer that fits into no word counts
as a real. -/
def typeName : Token → Option String
  | .null => some "null"
  | .bool _ => some "bool"
  | .int n => some (if fitsWord n then "int" else "float")
  | .real _ => some "float"
  | .text _ => some "str"
  | .openList => some "array"
  | .openMapping => some "object"
  | _ => none

/-- Whether a token is a number that is no double, or an integer that fits neither into a word nor
into a double. -/
def isTooGreat : Token → Bool
  | .int n => !fitsWord n && (Binary64.ofInt n).isInfinite
  | .real x => x.isInfinite
  | _ => false

/-- A value of another type than expected, or no value. -/
def mismatch (file expected place : String) (t : Token) : Fault :=
  if isTooGreat t then .wrongShape file (.realTooGreat place)
  else
    match typeName t with
    | some found => .wrongShape file (.mismatch expected found place)
    | none => .notJson file

/-- A place within a value, as it is written. -/
def placeText (place : List Json.PlaceStep) : String :=
  String.join (place.map fun
    | .item i => "[" ++ toString i ++ "]"
    | .member => "[...]")

/-- The fault of a JSON text that cannot be read; `base` is the place of the value in the file. -/
def faultOf (file base : String) : Json.ReadProblem → Fault
  | .malformed => .notJson file
  | .brokenText => .invalidUtf8
  | .realTooGreat place => .wrongShape file (.realTooGreat (base ++ placeText place))
  | .intTooLong place => .wrongShape file (.intTooLong (base ++ placeText place))

def readAny (file base : String) (ts : List Token) : Except Fault (Value × List Token) :=
  match Json.readValue ts with
  | .ok r => .ok r
  | .error p => .error (faultOf file base p)

def readMember (file : String) (w : Wrapper) (key : Option String) (ts : List Token) :
    Except Fault (Wrapper × List Token) :=
  match key, ts with
  | none, _ => .error .invalidUtf8
  | some "tree", .openList :: rest =>
    (readAny file "$.tree" (.openList :: rest)).map fun (v, r) => ({ w with tree := some v }, r)
  | some "tree", t :: _ => .error (mismatch file "array" "$.tree" t)
  | some "path", .null :: rest => .ok ({ w with path := none }, rest)
  | some "path", .text (some s) :: rest => .ok ({ w with path := some s }, rest)
  | some "path", .text none :: _ => .error .invalidUtf8
  | some "path", t :: _ => .error (mismatch file "str | null" "$.path" t)
  | some "tree", [] => .error (.notJson file)
  | some "path", [] => .error (.notJson file)
  | some name, _ => .error (.wrongShape file (.unknownField name))

theorem length_of_readAny {file base : String} {ts rest : List Token} {v : Value}
    (h : readAny file base ts = .ok (v, rest)) : rest.length < ts.length := by
  unfold readAny at h
  split at h
  · next r hr =>
    simp only [Except.ok.injEq] at h
    subst h
    exact Json.readFrom_length hr
  · simp at h

theorem readMember_length {file : String} {w w' : Wrapper} {key : Option String}
    {ts rest : List Token} (h : readMember file w key ts = .ok (w', rest)) :
    rest.length < ts.length := by
  unfold readMember at h
  split at h
  · simp at h
  · next r =>
    cases ha : readAny file "$.tree" (.openList :: r) with
    | error f => simp [ha, Except.map] at h
    | ok p =>
      obtain ⟨v, r'⟩ := p
      simp only [ha, Except.map, Except.ok.injEq, Prod.mk.injEq] at h
      obtain ⟨-, rfl⟩ := h
      exact length_of_readAny ha
  · simp at h
  · simp only [Except.ok.injEq, Prod.mk.injEq] at h
    simp [h.2]
  · simp only [Except.ok.injEq, Prod.mk.injEq] at h
    simp [h.2]
  all_goals simp at h

/-- Read the members of a mapping after its opening brace; `first` tells that none has been
read. -/
def readMembers (file : String) (first : Bool) (w : Wrapper) (ts : List Token) :
    Except Fault (Wrapper × List Token) :=
  match ts with
  | .closeMapping :: rest => .ok (w, rest)
  | .text key :: .colon :: rest =>
    if first then
      match _h : readMember file w key rest with
      | .error f => .error f
      | .ok (w, rest) => readMembers file false w rest
    else .error (.notJson file)
  | .comma :: .text key :: .colon :: rest =>
    if first then .error (.notJson file)
    else
      match _h : readMember file w key rest with
      | .error f => .error f
      | .ok (w, rest) => readMembers file false w rest
  | _ => .error (.notJson file)
termination_by ts.length
decreasing_by
  all_goals
    have := readMember_length _h
    simp only [List.length_cons]
    omega

/-- Read a tree with the path that comes with it. -/
def readTree (file : String) (ts : List Token) :
    Except Fault (Value × Option String × List Token) :=
  match ts with
  | .openList :: _ => (readAny file "$" ts).map fun (v, rest) => (v, none, rest)
  | .openMapping :: rest =>
    match readMembers file true ⟨none, none⟩ rest with
    | .error f => .error f
    | .ok (w, rest) =>
      match w.tree with
      | some v => .ok (v, w.path, rest)
      | none => .error (.wrongShape file .missingTree)
  | t :: _ => .error (mismatch file "object | array" "" t)
  | [] => .error (.notJson file)

/-- Read a tree file: its tree, and the path of the module, which is the file's own path if the file
gives none. Mirrors `load_tree_file`. -/
def read (file : String) (content : List Text.Symbol) : Except Fault (Node × String) :=
  match readTree file (Json.tokens content) with
  | .error f => .error f
  | .ok (_, _, _ :: _) => .error (.notJson file)
  | .ok (v, path, []) =>
    match Node.rootOfValue v with
    | .error f => .error f
    | .ok root => .ok (root, (path.filter (· ≠ "")).getD file)

/-- A tree as the text of a file. Mirrors `dump_tree`. -/
def write (root : Node) : String :=
  Json.write root.toValue

end RouteDocs.TreeFile
