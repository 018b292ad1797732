/-!
# Value/Calendar — days and moments

A `Day` is a day of the calendar that runs back unchanged to year one; `Day.isValid` says which
triples are days. A `Moment` is a day with a time on it and, if known, its distance from universal
time in seconds. Two moments with a distance are the same when they are the same instant
(`Moment.microseconds`), however they are written.
-/

namespace TypeCatalog

/-- A day of the calendar. -/
structure Day where
  year : Nat
  month : Nat
  day : Nat
  deriving DecidableEq, Repr

/-- A time on a day, to the microsecond. -/
structure Moment where
  date : Day
  hour : Nat
  minute : Nat
  second : Nat
  microsecond : Nat
  /-- How many seconds the clock is ahead of universal time, if that is known. -/
  offset : Option Int
  deriving DecidableEq, Repr

namespace Day

/-- Whether a year has a 29th of February. -/
def isLeap (year : Nat) : Bool := year % 4 == 0 && (year % 100 != 0 || year % 400 == 0)

/-- The length of a month. -/
def daysIn (year month : Nat) : Nat :=
  match month with
  | 2 => if isLeap year then 29 else 28
  | 4 | 6 | 9 | 11 => 30
  | _ => 31

/-- Whether a triple is a day. -/
def isValid (d : Day) : Bool :=
  1 ≤ d.year && d.year ≤ 9999 && 1 ≤ d.month && d.month ≤ 12 && 1 ≤ d.day &&
    d.day ≤ daysIn d.year d.month

/-- The days from the start of year one to a day. -/
def number (d : Day) : Nat :=
  let y := d.year - 1
  let before := (List.range (d.month - 1)).map fun m => daysIn d.year (m + 1)
  365 * y + y / 4 - y / 100 + y / 400 + before.foldl (· + ·) 0 + d.day

end Day

namespace Moment

/-- The seconds of a day. -/
def secondsPerDay : Nat := 86400

/-- Whether the parts are those of a time on a day; a clock is less than a day off. -/
def isValid (m : Moment) : Bool :=
  m.date.isValid && m.hour < 24 && m.minute < 60 && m.second < 60 &&
    (match m.offset with
      | none => true
      | some s => s.natAbs < secondsPerDay)

/-- The microseconds from the start of year one, by universal time if the offset is known. -/
def microseconds (m : Moment) : Int :=
  let local' : Int :=
    (((m.date.number * 24 + m.hour) * 60 + m.minute) * 60 + m.second : Nat)
  (local' - m.offset.getD 0) * 1000000 + m.microsecond

/-- Whether two moments are the same: the same instant, or the same reading of clocks whose
offset is not known. -/
def same (a b : Moment) : Bool :=
  a.offset.isSome == b.offset.isSome && a.microseconds == b.microseconds

end Moment

end TypeCatalog
