/-!
# Dates and moments

A date of the Gregorian calendar in the years 1 to 9999, and a moment of a day
to the microsecond, which may name its zone. Both have a plain form, with the
largest parts first, and a written form among other values.

Results:
* `Date.make?_eq_some_iff`: the dates are those of the calendar.
-/
namespace RouteDocs

structure Date where
  year : Nat
  month : Nat
  day : Nat
  deriving DecidableEq

/-- A zone by its minutes ahead of universal time and the name it was given by. -/
structure Zone where
  minutes : Int
  name : String
  deriving DecidableEq

structure Moment where
  date : Date
  hour : Nat
  minute : Nat
  second : Nat
  microsecond : Nat
  zone : Option Zone
  deriving DecidableEq

/-- A number in decimal with zeros before it up to a width. -/
def padded (width n : Nat) : String :=
  let digits := toString n
  String.ofList (List.replicate (width - digits.length) '0') ++ digits

namespace Date

/-- A year with a 29th of February. -/
def isLeap (year : Nat) : Bool :=
  year % 4 = 0 && (year % 100 ≠ 0 || year % 400 = 0)

def daysIn (year month : Nat) : Nat :=
  if month = 2 then (if isLeap year then 29 else 28)
  else if month = 4 ∨ month = 6 ∨ month = 9 ∨ month = 11 then 30
  else 31

def maxYear : Nat := 9999

/-- The date of a year, a month and a day, if the calendar has it. -/
def make? (year month day : Nat) : Option Date :=
  if 1 ≤ year ∧ year ≤ maxYear ∧ 1 ≤ month ∧ month ≤ 12 ∧ 1 ≤ day ∧ day ≤ daysIn year month then
    some ⟨year, month, day⟩
  else none

theorem make?_eq_some_iff {year month day : Nat} {d : Date} :
    make? year month day = some d ↔
      d = ⟨year, month, day⟩ ∧ 1 ≤ year ∧ year ≤ 9999 ∧ 1 ≤ month ∧ month ≤ 12 ∧ 1 ≤ day ∧
        day ≤ daysIn year month := by
  unfold make? maxYear
  split <;> rename_i h
  · simp [h, eq_comm]
  · simp only [reduceCtorEq, false_iff]
    exact fun hd => h hd.2

/-- The number of leap days before the first day of a year. -/
def leapDaysBefore (year : Nat) : Nat :=
  (year - 1) / 4 - (year - 1) / 100 + (year - 1) / 400

/-- The number of a date, counted from the first date of year 1. -/
def number (d : Date) : Nat :=
  let months := (List.range (d.month - 1)).foldl (fun n m => n + daysIn d.year (m + 1)) 0
  (d.year - 1) * 365 + leapDaysBefore d.year + months + (d.day - 1)

/-- The date after a date; none after the last. -/
def next? (d : Date) : Option Date :=
  ((make? d.year d.month (d.day + 1)).or (make? d.year (d.month + 1) 1)).or (make? (d.year + 1) 1 1)

def plain (d : Date) : String :=
  padded 4 d.year ++ "-" ++ padded 2 d.month ++ "-" ++ padded 2 d.day

/-- A date as it is written among other values. -/
def written (d : Date) : String :=
  "datetime.date(" ++ ", ".intercalate ([d.year, d.month, d.day].map toString) ++ ")"

end Date

namespace Zone

/-- A zone is less than a day away from universal time. -/
def make? (minutes : Int) (name : String) : Option Zone :=
  if minutes.natAbs < 24 * 60 then some ⟨minutes, name⟩ else none

def plain (z : Zone) : String :=
  (if z.minutes < 0 then "-" else "+") ++ padded 2 (z.minutes.natAbs / 60) ++ ":" ++
    padded 2 (z.minutes.natAbs % 60)

/-- The distance from universal time as days and seconds, the seconds not negative. -/
def distance (z : Zone) : String :=
  let seconds := z.minutes * 60
  let parts :=
    (if seconds < 0 then ["days=-1"] else []) ++
      (if seconds.emod 86400 = 0 then [] else ["seconds=" ++ toString (seconds.emod 86400)])
  if parts.isEmpty then "0" else ", ".intercalate parts

/-- A zone as it is written among other values. -/
def written (z : Zone) : String :=
  "datetime.timezone(datetime.timedelta(" ++ z.distance ++ "), '" ++ z.name ++ "')"

end Zone

namespace Moment

/-- The moment of a date and a time, if the day has it. -/
def make? (date : Date) (hour minute second microsecond : Nat) (zone : Option Zone) :
    Option Moment :=
  if hour < 24 ∧ minute < 60 ∧ second < 60 ∧ microsecond < 1000000 then
    some ⟨date, hour, minute, second, microsecond, zone⟩
  else none

/-- The moment a second later; none after the last. -/
def nextSecond? (m : Moment) : Option Moment :=
  if m.second < 59 then some { m with second := m.second + 1 }
  else if m.minute < 59 then some { m with minute := m.minute + 1, second := 0 }
  else if m.hour < 23 then some { m with hour := m.hour + 1, minute := 0, second := 0 }
  else m.date.next?.map fun d => { m with date := d, hour := 0, minute := 0, second := 0 }

/-- The microseconds since the first moment of year 1, in universal time if the zone is known. -/
def instant (m : Moment) : Int :=
  let minutes : Int := (m.date.number * 24 + m.hour) * 60 + m.minute
  let minutes := minutes - (m.zone.map (·.minutes)).getD 0
  (minutes * 60 + m.second) * 1000000 + m.microsecond

/-- The same moment. One with a zone differs from each without. -/
def isSame (m n : Moment) : Bool :=
  m.zone.isSome == n.zone.isSome && m.instant == n.instant

def plain (m : Moment) : String :=
  m.date.plain ++ " " ++ padded 2 m.hour ++ ":" ++ padded 2 m.minute ++ ":" ++ padded 2 m.second ++
    (if m.microsecond = 0 then "" else "." ++ padded 6 m.microsecond) ++
    (m.zone.map Zone.plain).getD ""

/-- A moment as it is written among other values, without the seconds if they are zero. -/
def written (m : Moment) : String :=
  let seconds :=
    if m.microsecond ≠ 0 then [m.second, m.microsecond]
    else if m.second ≠ 0 then [m.second] else []
  let parts := [m.date.year, m.date.month, m.date.day, m.hour, m.minute] ++ seconds
  "datetime.datetime(" ++ ", ".intercalate (parts.map toString) ++
    (match m.zone with
      | some z => ", tzinfo=" ++ z.written
      | none => "") ++ ")"

end Moment
end RouteDocs
