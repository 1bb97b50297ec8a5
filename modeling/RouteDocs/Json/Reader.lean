import RouteDocs.Json.Token

/-!
# Reading JSON

`readValue` reads one value from the tokens of a text and leaves the others.
It keeps the lists and mappings around the place it has come to on a stack of
frames, so it takes one token at a time. A key that comes again in a mapping
gives its value to the first. A number is refused if it is too great for a
double, or has more than 4300 characters.

Results:
* `readFrom_length`: reading leaves fewer tokens.
-/
namespace RouteDocs.Json

/-- A step from a list or mapping to one of its parts. -/
inductive PlaceStep where
  | item (i : Nat)
  | member
  deriving DecidableEq

/-- Why no value can be read. -/
inductive ReadProblem where
  | malformed
  /-- A text that is not all characters. -/
  | brokenText
  /-- A number too great for a double, at a place. -/
  | realTooGreat (place : List PlaceStep)
  /-- An integer with too many digits, at a place. -/
  | intTooLong (place : List PlaceStep)

/-- A list or mapping that a value stands in, with what came before the value. The items of a
list are kept last first. -/
inductive Frame where
  | items (before : List Value)
  | members (before : Entries String Value) (key : String)

def Frame.step : Frame → PlaceStep
  | items before => .item before.length
  | members _ _ => .member

def placeOf (frames : List Frame) : List PlaceStep :=
  (frames.map Frame.step).reverse

/-- What may come next. -/
inductive Awaiting where
  | value
  | firstItem
  | afterItem (items : List Value)
  | firstKey
  | nextKey (members : Entries String Value)
  | colon (members : Entries String Value) (key : String)
  | afterMember (members : Entries String Value)

/-- What a token means where it stands. -/
inductive Turn where
  | go (next : Awaiting) (frames : List Frame)
  | done (v : Value)
  | fail (p : ReadProblem)

/-- A value is complete: it is the result, or a part of the innermost frame. -/
def settle (v : Value) : List Frame → Turn
  | [] => .done v
  | .items before :: frames => .go (.afterItem (v :: before)) frames
  | .members before key :: frames => .go (.afterMember (Entries.put before key v)) frames

/-- An integer of more than 4300 characters, with its sign. -/
def isTooLong (n : Int) : Bool :=
  Nat.pow 10 (if n < 0 then 4299 else 4300) ≤ n.natAbs

def startValue (frames : List Frame) : Token → Turn
  | .openList => .go .firstItem frames
  | .openMapping => .go .firstKey frames
  | .null => settle .null frames
  | .bool b => settle (.bool b) frames
  | .int n => if isTooLong n then .fail (.intTooLong (placeOf frames)) else settle (.int n) frames
  | .real (.infinite _) => .fail (.realTooGreat (placeOf frames))
  | .real x => settle (.real x) frames
  | .text (some s) => settle (.text s) frames
  | .text none => .fail .brokenText
  | _ => .fail .malformed

def startKey (members : Entries String Value) (frames : List Frame) : Token → Turn
  | .text (some s) => .go (.colon members s) frames
  | .text none => .fail .brokenText
  | _ => .fail .malformed

def step (frames : List Frame) (t : Token) : Awaiting → Turn
  | .value => startValue frames t
  | .firstItem =>
    match t with
    | .closeList => settle (.list []) frames
    | t => startValue (.items [] :: frames) t
  | .afterItem items =>
    match t with
    | .comma => .go .value (.items items :: frames)
    | .closeList => settle (.list items.reverse) frames
    | _ => .fail .malformed
  | .firstKey =>
    match t with
    | .closeMapping => settle (.mapping []) frames
    | t => startKey [] frames t
  | .nextKey members => startKey members frames t
  | .colon members key =>
    match t with
    | .colon => .go .value (.members members key :: frames)
    | _ => .fail .malformed
  | .afterMember members =>
    match t with
    | .comma => .go (.nextKey members) frames
    | .closeMapping => settle (.mapping members) frames
    | _ => .fail .malformed

/-- Read tokens until a value is complete. -/
def readFrom (next : Awaiting) (frames : List Frame) :
    List Token → Except ReadProblem (Value × List Token)
  | [] => .error .malformed
  | t :: rest =>
    match step frames t next with
    | .go next frames => readFrom next frames rest
    | .done v => .ok (v, rest)
    | .fail p => .error p

/-- Read one value. -/
def readValue (ts : List Token) : Except ReadProblem (Value × List Token) :=
  readFrom .value [] ts

def read (s : List Text.Symbol) : Except ReadProblem Value :=
  match readValue (tokens s) with
  | .ok (v, []) => .ok v
  | .ok _ => .error .malformed
  | .error p => .error p

theorem readFrom_length {ts rest : List Token} {next : Awaiting} {frames : List Frame} {v : Value}
    (h : readFrom next frames ts = .ok (v, rest)) : rest.length < ts.length := by
  induction ts generalizing next frames with
  | nil => simp [readFrom] at h
  | cons t ts ih =>
    simp only [readFrom] at h
    split at h
    · have := ih h
      simp only [List.length_cons]
      omega
    · simp only [Except.ok.injEq, Prod.mk.injEq] at h
      simp [h.2]
    · simp at h

end RouteDocs.Json
