import TypeCatalog.Number.Numeral
import TypeCatalog.Text.Base64
import TypeCatalog.Value.Basic
import TypeCatalog.Yaml.Fault

/-!
# Yaml/ScalarValue — what the text of a scalar stands for

One reader for each type of scalar. A type that was found by a pattern always has a text of the
right form; a type that was given by a tag may stand before any text, so each reader says what is
wrong with the others.
-/

namespace TypeCatalog.Yaml.ScalarValue

open TypeCatalog.Number TypeCatalog.Text

/-- A text without its underscores. -/
def withoutGaps (text : String) : List Char := text.toList.filter (· != '_')

/-- Splits a text at its colons. -/
def parts : List Char → List (List Char)
  | [] => [[]]
  | c :: rest =>
    match parts rest with
    | [] => [[c]]
    | first :: others => if c == ':' then [] :: first :: others else (c :: first) :: others

/-- A number from its parts in base sixty, the greatest first. -/
def sexagesimal (values : List Int) : Int := values.foldl (fun n v => n * 60 + v) 0

/-- The integer of a text without sign: in base two or sixteen by its first letters, in base eight
after a zero, in base sixty with colons, else in base ten. -/
def unsignedInt? (text : List Char) : Option Int :=
  match text with
  | ['0'] => some 0
  | '0' :: 'b' :: digits => integer? 2 digits
  | '0' :: 'x' :: digits => integer? 16 digits
  | '0' :: _ => integer? 8 text
  | _ =>
    if text.contains ':' then ((parts text).mapM (integer? 10)).map sexagesimal
    else integer? 10 text

/-- The value of an integer's text. -/
def int (text : String) : Except Fault Value :=
  match withoutGaps text with
  | [] => .error .emptyNumeral
  | chars =>
    let (negative, body) := splitSign chars
    if body.isEmpty then .error .emptyNumeral
    else
      match unsignedInt? body with
      | some n => .ok (.int (if negative then -n else n))
      | none => .error .badNumeral

/-- The sum of parts in base sixty, the least part first, added up in that order; `weight` is that
of the first. Every weight must be a floating-point number. -/
def sixtiethsSum : List Binary64 → Nat → Binary64 → Except Fault Binary64
  | [], _, sum => .ok sum
  | x :: rest, weight, sum =>
    match Binary64.ofInt (weight : Int) with
    | .infinite _ => .error .overflow
    | factor => sixtiethsSum rest (weight * 60) (sum.add (x.mul factor))

/-- The text of a floating-point number: its sign, and what follows it in lower case. -/
def floatBody (text : String) : Bool × List Char :=
  splitSign ((withoutGaps text).map Char.toLower)

/-- The word for the value that is no number. -/
def nanWord : List Char := ".nan".toList

/-- Whether a text is that word, with a sign or without. -/
def isNanWord (text : String) : Bool := (floatBody text).2 == nanWord

/-- The number of a text without sign. -/
def unsignedFloat (text : List Char) : Except Fault Binary64 :=
  if text == ".inf".toList then .ok (.infinite false)
  else if text == nanWord then .ok .nan
  else if text.contains ':' then
    match (parts text).mapM float? with
    | some values => sixtiethsSum values.reverse 1 (Binary64.zero false)
    | none => .error .badNumeral
  else
    match float? text with
    | some x => .ok x
    | none => .error .badNumeral

/-- The value of a floating-point number's text. -/
def float (text : String) : Except Fault Value :=
  if (withoutGaps text).isEmpty then .error .emptyNumeral
  else
    let (negative, body) := floatBody text
    (unsignedFloat body).map fun x => .float (if negative then x.neg else x)

/-- The words for truth values, in lower case. -/
def truthWords : List (String × Bool) :=
  [("yes", true), ("no", false), ("true", true), ("false", false), ("on", true), ("off", false)]

/-- The value of a truth value's text, in any case of letters. -/
def bool (text : String) : Except Fault Value :=
  match truthWords.lookup (String.ofList (text.toList.map Char.toLower)) with
  | some b => .ok (.bool b)
  | none => .error .badTruthWord

/-- The value of text that writes bytes. -/
def binary (text : String) : Except Fault Value :=
  if text.toList.all fun c => c.toNat < 128 then
    match Base64.decode? text.toList with
    | some bytes => .ok (.bytes bytes)
    | none => .error .malformed
  else .error .malformed

/-! ## Days and moments -/

/-- Reads some digits: at least `least` and at most `most`. -/
def digits? (least most : Nat) (text : List Char) : Option (Nat × List Char) :=
  let run := (text.take most).takeWhile Char.isDigit
  if run.length < least then none
  else some (run.foldl (fun n c => n * 10 + (c.toNat - '0'.toNat)) 0, text.drop run.length)

/-- Reads a given character. -/
def char? (c : Char) : List Char → Option (List Char)
  | [] => none
  | x :: rest => if x == c then some rest else none

/-- Leaves spaces and tabs behind. -/
def skipGaps (text : List Char) : List Char := text.dropWhile fun c => c == ' ' || c == '\t'

/-- Reads a day. -/
def day? (text : List Char) : Option (Day × List Char) := do
  let (year, text) ← digits? 4 4 text
  let text ← char? '-' text
  let (month, text) ← digits? 1 2 text
  let text ← char? '-' text
  let (day, text) ← digits? 1 2 text
  return (⟨year, month, day⟩, text)

/-- Reads what stands between a day and its time. -/
def daySeparator? : List Char → Option (List Char)
  | [] => none
  | c :: rest =>
    if c == 'T' || c == 't' then some rest
    else if c == ' ' || c == '\t' then some (skipGaps rest)
    else none

/-- Microseconds from the digits of a fraction: six digits count. -/
def microseconds (digits : List Char) : Nat :=
  let six := (digits.take 6) ++ List.replicate (6 - digits.length) '0'
  six.foldl (fun n c => n * 10 + (c.toNat - '0'.toNat)) 0

/-- Reads a fraction of a second, which may be absent. -/
def fraction : List Char → Nat × List Char
  | '.' :: rest => (microseconds (rest.takeWhile Char.isDigit), rest.dropWhile Char.isDigit)
  | text => (0, text)

/-- Whether a text is at its end, but for one line feed. -/
def atEnd (text : List Char) : Bool := text.isEmpty || text == ['\n']

/-- Reads the minutes of an offset, which may be absent. -/
def offsetMinutes : List Char → Nat × List Char
  | ':' :: rest => (digits? 2 2 rest).getD (0, ':' :: rest)
  | text => (0, text)

/-- Reads the distance from universal time to the end of the text, in seconds; none inside if it is
not given. -/
def offset? (text : List Char) : Option (Option Int) :=
  if atEnd text then some none
  else
    match skipGaps text with
    | 'Z' :: rest => if atEnd rest then some (some 0) else none
    | c :: rest =>
      if c == '+' || c == '-' then do
        let (hours, rest) ← digits? 1 2 rest
        let (minutes, rest) := offsetMinutes rest
        if atEnd rest then
          let seconds : Int := ((hours * 60 + minutes) * 60 : Nat)
          some (some (if c == '-' then -seconds else seconds))
        else none
      else none
    | [] => none

/-- Reads a time after a day. -/
def time? (d : Day) (text : List Char) : Option Moment := do
  let text ← daySeparator? text
  let (hour, text) ← digits? 1 2 text
  let text ← char? ':' text
  let (minute, text) ← digits? 2 2 text
  let text ← char? ':' text
  let (second, text) ← digits? 2 2 text
  let (microsecond, text) := fraction text
  let offset ← offset? text
  return { date := d, hour, minute, second, microsecond, offset }

/-- The value of a text that has the form of a day or a moment. -/
def timestamp (text : String) : Except Fault Value :=
  match day? text.toList with
  | none => .error .badTimeForm
  | some (d, rest) =>
    if atEnd rest then if d.isValid then .ok (.day d) else .error .badNumeral
    else
      match time? d rest with
      | none => .error .badTimeForm
      | some m => if m.isValid then .ok (.moment m) else .error .badNumeral

end TypeCatalog.Yaml.ScalarValue
