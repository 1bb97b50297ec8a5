import RouteDocs.Fault
import RouteDocs.Json.Token
import RouteDocs.Yaml.Cursor

/-!
# Quoted scalars

Between single quotes a quote is written twice. Between double quotes a
backslash starts an escape; before a line break it takes the break away. An
escape can stand for half of a character. Gaps that cross lines are folded.
-/
namespace RouteDocs.Yaml.Quoted

open Text (CodePoint WideText)

/-- The character that a letter after a backslash stands for. -/
def shortEscape? : Char → Option Char
  | '0' => some (Char.ofNat 0x00)
  | 'a' => some (Char.ofNat 0x07)
  | 'b' => some (Char.ofNat 0x08)
  | 't' => some '\t'
  | '\t' => some '\t'
  | 'n' => some '\n'
  | 'v' => some (Char.ofNat 0x0b)
  | 'f' => some (Char.ofNat 0x0c)
  | 'r' => some '\r'
  | 'e' => some (Char.ofNat 0x1b)
  | ' ' => some ' '
  | '"' => some '"'
  | '/' => some '/'
  | '\\' => some '\\'
  | 'N' => some (Char.ofNat 0x85)
  | '_' => some (Char.ofNat 0xa0)
  | 'L' => some (Char.ofNat 0x2028)
  | 'P' => some (Char.ofNat 0x2029)
  | _ => none

/-- How many hexadecimal digits follow a letter after a backslash. -/
def digitCount? : Char → Option Nat
  | 'x' => some 2
  | 'u' => some 4
  | 'U' => some 8
  | _ => none

def hexNumber? (digits : List Char) : Option Nat :=
  digits.foldlM (fun n d => (Json.hexValue? d).map (n * 16 + ·)) 0

/-- The greatest number that is looked at as a code point. -/
def maxNumber : Nat := 0x7fffffff

/-- The code point of an escape with a given number of digits, at the head of a text. -/
def codePoint (count : Nat) (s : List Char) : Except YamlProblem CodePoint :=
  if s.length < count then .error .token
  else
    match hexNumber? (s.take count) with
    | none => .error .token
    | some n =>
      match CodePoint.ofNat? n with
      | some p => .ok p
      | none => .error (if n ≤ maxNumber then .noSuchValue else .tooGreat)

/-- What an escape stands for, after its backslash, and the place after it. -/
def escape (c : Cursor) : Except YamlProblem (WideText × Cursor) :=
  match c.next? with
  | none => .error .token
  | some x =>
    match shortEscape? x, digitCount? x with
    | some y, _ => .ok ([.char y], c.step)
    | none, some count => do
      let p ← codePoint count c.step.rest
      return ([p], c.step.advance count)
    | none, none =>
      if isBreak x then
        match breaksFrom isBlank c.rest.length c.step with
        | (breaks, c, false) => .ok (.ofChars breaks, c)
        | (_, _, true) => .error .token
      else .error .token

/-- What a gap stands for, and the place after it. -/
def gap (c : Cursor) : Except YamlProblem (WideText × Cursor) :=
  let blanks := c.run isBlank
  let c := c.advance blanks.length
  match c.next? with
  | none => .error .token
  | some x =>
    if isBreak x then
      match breaksFrom isBlank c.rest.length c.step with
      | (breaks, c, false) => .ok (.ofChars (folded (readBreak x) breaks), c)
      | (_, _, true) => .error .token
    else .ok (.ofChars blanks, c)

/-- The next part of a scalar: what it stands for and the place after it. -/
def part (quote x : Char) (c : Cursor) : Except YamlProblem (WideText × Cursor) :=
  if isBlank x || isBreak x then gap c
  else if quote = '"' && x = '\\' then escape c.step
  else .ok ([.char x], c.step)

/-- The rest of a scalar up to its closing quote, and the place after that. -/
def scanFrom (quote : Char) : Nat → Cursor → Except YamlProblem (WideText × Cursor)
  | 0, _ => .error .token
  | fuel + 1, c =>
    match c.next? with
    | none => .error .token
    | some x =>
      if x = quote then
        if quote = '\'' && c.second? == some '\'' then do
          let (s, c) ← scanFrom quote fuel (c.advance 2)
          return (.char '\'' :: s, c)
        else .ok ([], c.step)
      else do
        let (found, c) ← part quote x c
        let (s, c) ← scanFrom quote fuel c
        return (found ++ s, c)

/-- The scalar whose opening quote stands at a place, and the place after it. -/
def scan (quote : Char) (c : Cursor) : Except YamlProblem (WideText × Cursor) :=
  scanFrom quote (c.rest.length + 1) c.step

end RouteDocs.Yaml.Quoted
