import TypeCatalog.Number.Numeral
import TypeCatalog.Number.Shortest
import TypeCatalog.Text.Quoted
import TypeCatalog.Value.Basic

/-!
# Value/Printed — a value on one line of a message

`Value.printed?` writes a value so that a reader of a message can tell what it was: strings are
quoted, objects and lists stand in their brackets, days and moments name their parts. The only
values without such a text hold an integer of more digits than may be written.
-/

namespace TypeCatalog

open TypeCatalog.Number TypeCatalog.Text

/-- The parts of a moment that are written: seconds and microseconds only if they, or what comes
after them, count. -/
def Moment.writtenParts (m : Moment) : List Nat :=
  let base := [m.date.year, m.date.month, m.date.day, m.hour, m.minute]
  if m.microsecond ≠ 0 then base ++ [m.second, m.microsecond]
  else if m.second ≠ 0 then base ++ [m.second]
  else base

/-- A distance from universal time: whole days, possibly negative, and the seconds beyond. -/
def Moment.offsetText (seconds : Int) : String :=
  if seconds = 0 then "datetime.timezone.utc"
  else
    let day : Int := Moment.secondsPerDay
    let days := seconds.fdiv day
    let rest := seconds.fmod day
    let parts := (if days = 0 then [] else ["days=" ++ toString days]) ++
      (if rest = 0 then [] else ["seconds=" ++ toString rest])
    "datetime.timezone(datetime.timedelta(" ++ ", ".intercalate parts ++ "))"

/-- A day with its parts. -/
def Day.text (d : Day) : String :=
  "datetime.date(" ++ ", ".intercalate ([d.year, d.month, d.day].map toString) ++ ")"

/-- A moment with its parts and its offset. -/
def Moment.text (m : Moment) : String :=
  let zone := match m.offset with
    | none => []
    | some s => ["tzinfo=" ++ Moment.offsetText s]
  "datetime.datetime(" ++ ", ".intercalate (m.writtenParts.map toString ++ zone) ++ ")"

namespace Value

mutual
/-- A value on one line, or none if it holds an integer too long to be written. -/
def printed? : Value → Option String
  | null => some "None"
  | bool b => some (if b then "True" else "False")
  | int n => integerText? n
  | float x => some (DecimalStyle.plain.text x)
  | string s => some (quoted s)
  | list items => (printedItems? items).map fun ts => "[" ++ ", ".intercalate ts ++ "]"
  | object entries => (printedEntries? entries).map fun ts =>
      "\x7b" ++ ", ".intercalate ts ++ "\x7d"
  | day d => some d.text
  | moment m => some m.text
  | bytes b => some (quotedBytes b)
  | set [] => some "set()"
  | set (item :: items) => (printedItems? (item :: items)).map fun ts =>
      "\x7b" ++ ", ".intercalate ts ++ "\x7d"
  | pair a b => do
    let s ← printed? a
    let t ← printed? b
    return "(" ++ s ++ ", " ++ t ++ ")"

/-- The items of a list. -/
def printedItems? : List Value → Option (List String)
  | [] => some []
  | v :: rest => do
    let t ← printed? v
    let ts ← printedItems? rest
    return t :: ts

/-- The entries of an object, each a key and what it stands for. -/
def printedEntries? : List (Value × Value) → Option (List String)
  | [] => some []
  | (k, v) :: rest => do
    let s ← printed? k
    let t ← printed? v
    let ts ← printedEntries? rest
    return (s ++ ": " ++ t) :: ts
end

end Value

end TypeCatalog
