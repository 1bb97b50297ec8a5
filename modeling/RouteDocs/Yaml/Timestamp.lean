import RouteDocs.Calendar
import RouteDocs.Fault
import RouteDocs.Number.Numeral

/-!
# Timestamps

A timestamp is a date, with a time of the day after it or none. The time may
have a fraction of a second and a zone.
-/
namespace RouteDocs.Yaml

/-- A zone as it is written: universal time, or a distance. -/
inductive ZoneForm where
  | universal
  | distance (ahead : Bool) (hours minutes : List Char) (text : List Char)
  deriving DecidableEq

structure TimeForm where
  hour : List Char
  minute : List Char
  second : List Char
  fraction : List Char
  zone : Option ZoneForm
  deriving DecidableEq

structure Timestamp where
  year : List Char
  month : List Char
  day : List Char
  time : Option TimeForm
  deriving DecidableEq

namespace Timestamp

/-- Some digits at the head of a text, at least so many and at most so many, and what follows. -/
def digits? (least most : Nat) (s : List Char) : Option (List Char × List Char) :=
  let found := (s.take most).takeWhile Char.isDigit
  if found.length < least then none else some (found, s.drop found.length)

/-- What follows a character at the head of a text. -/
def after? (c : Char) : List Char → Option (List Char)
  | [] => none
  | d :: rest => if c = d then some rest else none

def isGap (c : Char) : Bool := c == ' ' || c == '\t'

/-- The zone that makes up a text. -/
def zone? (s : List Char) : Option ZoneForm :=
  match s with
  | ['Z'] => some .universal
  | c :: rest =>
    if c = '+' ∨ c = '-' then do
      let (hours, rest) ← digits? 1 2 rest
      match rest with
      | [] => return .distance (c = '+') hours [] s
      | _ =>
        let (minutes, rest) ← digits? 2 2 (← after? ':' rest)
        if rest = [] then return .distance (c = '+') hours minutes s else none
    else none
  | [] => none

/-- The time that makes up a text. -/
def time? (s : List Char) : Option TimeForm := do
  let (hour, s) ← digits? 1 2 s
  let (minute, s) ← digits? 2 2 (← after? ':' s)
  let (second, s) ← digits? 2 2 (← after? ':' s)
  let (fraction, s) := match s with
    | '.' :: rest => (rest.takeWhile Char.isDigit, rest.dropWhile Char.isDigit)
    | s => ([], s)
  if s = [] then return ⟨hour, minute, second, fraction, none⟩
  else return ⟨hour, minute, second, fraction, some (← zone? (s.dropWhile isGap))⟩

/-- What stands between a date and a time: a letter, or spaces and tabs. -/
def afterGap? : List Char → Option (List Char)
  | [] => none
  | c :: rest =>
    if c = 'T' ∨ c = 't' then some rest
    else if isGap c then some (rest.dropWhile isGap)
    else none

/-- The timestamp that makes up a text. -/
def read? (s : List Char) : Option Timestamp := do
  let (year, s) ← digits? 4 4 s
  let (month, s) ← digits? 1 2 (← after? '-' s)
  let (day, s) ← digits? 1 2 (← after? '-' s)
  if s = [] then return ⟨year, month, day, none⟩
  else return ⟨year, month, day, some (← time? (← afterGap? s))⟩

/-- Whether a timestamp is known by its form: without a time only with two digits for the month
and for the day. -/
def isPlain (t : Timestamp) : Bool :=
  t.time.isSome || (t.month.length == 2 && t.day.length == 2)

/-- The millionths of a second of a fraction. The seventh digit rounds. -/
def microseconds (fraction : List Char) : Nat :=
  let six := fraction.take 6
  let n := Numeral.decimalOf (six ++ List.replicate (6 - six.length) '0')
  match fraction.drop 6 with
  | d :: _ => if '5' ≤ d then n + 1 else n
  | [] => n

/-- The zone of a form. -/
def ZoneForm.zone : ZoneForm → Except YamlProblem Zone
  | .universal => .ok ⟨0, "Z"⟩
  | .distance ahead hours minutes text =>
    let n := Numeral.decimalOf hours * 60 + Numeral.decimalOf minutes
    match Zone.make? (Numeral.signed (!ahead) n) (String.ofList text) with
    | some z => .ok z
    | none => .error .noSuchValue

/-- The moment of a time on a date. A fraction that rounds to a second is one. -/
def moment (d : Date) (t : TimeForm) : Except YamlProblem Moment := do
  let zone ← match t.zone with
    | some z => (ZoneForm.zone z).map some
    | none => .ok none
  let n := microseconds t.fraction
  let value := Numeral.decimalOf
  match Moment.make? d (value t.hour) (value t.minute) (value t.second) (n % 1000000) zone with
  | none => .error .noSuchValue
  | some m =>
    if n < 1000000 then .ok m
    else
      match m.nextSecond? with
      | some m => .ok m
      | none => .error .tooGreat

def date (t : Timestamp) : Except YamlProblem Date :=
  match Date.make? (Numeral.decimalOf t.year) (Numeral.decimalOf t.month)
    (Numeral.decimalOf t.day) with
  | some d => .ok d
  | none => .error .noSuchValue

/-- What a timestamp stands for: a date or a moment. -/
def setting (t : Timestamp) : Except YamlProblem Setting := do
  match t.time with
  | none => return .date (← t.date)
  | some time =>
    let d ← t.date
    return .moment (← moment d time)

end Timestamp
end RouteDocs.Yaml
