import TypeCatalog.Value.Calendar

/-!
# Value/Instant — instants counted from 1970, as days and times

`Moment.ofEpoch` finds the day and the time of an instant that is given in microseconds since the
start of 1970. Years are counted from March, so that a leap day comes last, and in groups of 400,
which all have the same number of days. `Moment.isoText` writes a moment of universal time.
-/

namespace TypeCatalog

/-- The days from the start of March of year zero to the start of 1970. -/
def Day.marchToEpoch : Nat := 719468

/-- The days of 400 years. -/
def Day.perGroup : Nat := 146097

/-- The day that comes so many days after the start of 1970. -/
def Day.ofEpoch (days : Nat) : Day :=
  let n := days + Day.marchToEpoch
  let inGroup := n % Day.perGroup
  let yearInGroup := (inGroup - inGroup / 1460 + inGroup / 36524 - inGroup / 146096) / 365
  let inYear := inGroup - (365 * yearInGroup + yearInGroup / 4 - yearInGroup / 100)
  let fromMarch := (5 * inYear + 2) / 153
  let month := if fromMarch < 10 then fromMarch + 3 else fromMarch - 9
  let year := n / Day.perGroup * 400 + yearInGroup
  { year := if month ≤ 2 then year + 1 else year
    month
    day := inYear - (153 * fromMarch + 2) / 5 + 1 }

namespace Moment

/-- The moment, by universal time, so many microseconds after the start of 1970. -/
def ofEpoch (microseconds : Nat) : Moment :=
  let seconds := microseconds / 1000000
  { date := Day.ofEpoch (seconds / secondsPerDay)
    hour := seconds % secondsPerDay / 3600
    minute := seconds % 3600 / 60
    second := seconds % 60
    microsecond := microseconds % 1000000
    offset := some 0 }

/-- A number filled up with zeros to a width. -/
def zeroPadded (width n : Nat) : String :=
  let digits := toString n
  String.ofList (List.replicate (width - digits.length) '0') ++ digits

/-- A moment of universal time as one word. -/
def isoText (m : Moment) : String :=
  "-".intercalate [zeroPadded 4 m.date.year, zeroPadded 2 m.date.month, zeroPadded 2 m.date.day] ++
    "T" ++ ":".intercalate [zeroPadded 2 m.hour, zeroPadded 2 m.minute, zeroPadded 2 m.second] ++
    "." ++ zeroPadded 6 m.microsecond ++ "Z"

end Moment

example : Day.ofEpoch 0 = ⟨1970, 1, 1⟩ ∧ Day.ofEpoch 19782 = ⟨2024, 2, 29⟩ := by decide

end TypeCatalog
