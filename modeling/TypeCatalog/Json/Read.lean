import TypeCatalog.Number.Numeral
import TypeCatalog.Text.Marking
import TypeCatalog.Value.Basic

/-!
# Json/Read — JSON text

`Json.read` reads a whole text as one JSON value, with white space around it and nothing else. It
takes the words `NaN`, `Infinity` and `-Infinity` for numbers, and of a key that is written twice
the last value. A number without fraction and exponent is an integer of any size up to the limit on
decimal digits; one beyond the limit is an error of its own, as the text may be good JSON.

Every call of a reader for a value, or for what is left of a list or an object, comes after a
character that it has consumed, so the length of the text bounds the depth of the calls.
-/

namespace TypeCatalog.Json

open TypeCatalog.Number TypeCatalog.Text

/-- Why a text is not read. -/
inductive ReadError where
  /-- The text is not JSON. -/
  | malformed
  /-- An integer has more decimal digits than are read. -/
  | oversizedInteger
  deriving DecidableEq, Repr

/-- White space between tokens. -/
def isGap (c : Char) : Bool := c == ' ' || c == '\t' || c == '\n' || c == '\r'

/-- A text after its leading white space. -/
def skipSpace (text : List Char) : List Char := text.dropWhile isGap

/-- The character of an escape of one letter. -/
def escape? : Char → Option Char
  | '"' => some '"'
  | '\\' => some '\\'
  | '/' => some '/'
  | 'b' => some '\x08'
  | 'f' => some '\x0c'
  | 'n' => some '\n'
  | 'r' => some '\r'
  | 't' => some '\t'
  | _ => none

/-- Adds characters before what has been read. -/
def prependAll (cs : List Char) : Option (List Char × List Char) → Option (List Char × List Char) :=
  Option.map fun (s, rest) => (cs ++ s, rest)

/-- Adds a character before what has been read. -/
def prepend (c : Char) : Option (List Char × List Char) → Option (List Char × List Char) :=
  prependAll [c]

/-- Reads a string up to its closing quote: its characters, and what follows the quote. -/
def stringBody : List Char → Option (List Char × List Char)
  | [] => none
  | '"' :: rest => some ([], rest)
  | '\\' :: 'u' :: a :: b :: c :: d :: '\\' :: 'u' :: e :: f :: g :: h :: rest =>
    match hexNumber? [a, b, c, d] with
    | none => none
    | some high =>
      match (hexNumber? [e, f, g, h]).bind (pairChar? high) with
      | some x => prepend x (stringBody rest)
      | none => prependAll (unitText high) (stringBody ('\\' :: 'u' :: e :: f :: g :: h :: rest))
  | '\\' :: 'u' :: a :: b :: c :: d :: rest =>
    match hexNumber? [a, b, c, d] with
    | none => none
    | some n => prependAll (unitText n) (stringBody rest)
  | '\\' :: c :: rest =>
    match escape? c with
    | none => none
    | some x => prepend x (stringBody rest)
  | c :: rest => if c.toNat < 0x20 then none else prepend c (stringBody rest)

/-- Splits off the digits `0` to `9` that a text starts with. -/
def spanAsciiDigits (text : List Char) : List Char × List Char :=
  (text.takeWhile Char.isDigit, text.dropWhile Char.isDigit)

/-- The value of digits. -/
def ofAsciiDigits (digits : List Char) : Nat :=
  digits.foldl (fun n c => n * 10 + (c.toNat - '0'.toNat)) 0

/-- The whole part of a number: a zero, or digits that do not start with one. -/
def wholePart? : List Char → Option (List Char × List Char)
  | '0' :: rest => some (['0'], rest)
  | text =>
    let (digits, rest) := spanAsciiDigits text
    if digits.isEmpty then none else some (digits, rest)

/-- A fraction, if a point with a digit after it follows. -/
def fractionPart? : List Char → Option (List Char × List Char)
  | '.' :: text =>
    let (digits, rest) := spanAsciiDigits text
    if digits.isEmpty then none else some (digits, rest)
  | _ => none

/-- An exponent, if its mark follows with a digit after it or after its sign. -/
def exponentPart? : List Char → Option (Int × List Char)
  | c :: text =>
    if c = 'e' ∨ c = 'E' then
      let (negative, body) := splitSign text
      let (digits, rest) := spanAsciiDigits body
      if digits.isEmpty then none
      else some (if negative then -(ofAsciiDigits digits : Int) else ofAsciiDigits digits, rest)
    else none
  | [] => none

/-- A number, and what follows it. -/
def number (text : List Char) : Except ReadError (Value × List Char) :=
  let (negative, body) := match text with
    | '-' :: rest => (true, rest)
    | other => (false, other)
  match wholePart? body with
  | none => .error .malformed
  | some (whole, rest) =>
    match fractionPart? rest, exponentPart? ((fractionPart? rest).elim rest (·.2)) with
    | none, none =>
      if digitLimit < whole.length then .error .oversizedInteger
      else
        let n : Int := ofAsciiDigits whole
        .ok (.int (if negative then -n else n), rest)
    | fraction, power =>
      let digits := (fraction.elim [] (·.1))
      let exponent := power.elim 0 (·.1)
      let after := power.elim (fraction.elim rest (·.2)) (·.2)
      .ok (.float (.ofDecimal negative (ofAsciiDigits (whole ++ digits))
        (exponent - (digits.length : Int))), after)

/-- The values that are written as words. -/
def words : List (String × Value) :=
  [("null", .null), ("true", .bool true), ("false", .bool false), ("NaN", .float .nan),
   ("Infinity", .float (.infinite false)), ("-Infinity", .float (.infinite true))]

/-- The word that a text starts with, and what follows it. -/
def word? (text : List Char) : Option (Value × List Char) :=
  words.findSome? fun (w, v) =>
    if w.toList.isPrefixOf text then some (v, text.drop w.length) else none

mutual
/-- Reads a value, and returns what follows it. -/
def value : Nat → List Char → Except ReadError (Value × List Char)
  | 0, _ => .error .malformed
  | fuel + 1, text =>
    match text with
    | '"' :: rest =>
      match stringBody rest with
      | some (s, after) => .ok (.string (String.ofList s), after)
      | none => .error .malformed
    | '[' :: rest =>
      match skipSpace rest with
      | ']' :: after => .ok (.list [], after)
      | inner => (items fuel inner).map fun (vs, after) => (.list vs, after)
    | '\x7b' :: rest =>
      match skipSpace rest with
      | '\x7d' :: after => .ok (.object [], after)
      | inner => (entries fuel inner []).map fun (es, after) => (.object es, after)
    | _ =>
      match word? text with
      | some found => .ok found
      | none => number text

/-- Reads the items of a list up to its bracket. -/
def items : Nat → List Char → Except ReadError (List Value × List Char)
  | 0, _ => .error .malformed
  | fuel + 1, text =>
    match value fuel text with
    | .error e => .error e
    | .ok (v, rest) =>
      match skipSpace rest with
      | ']' :: after => .ok ([v], after)
      | ',' :: more => (items fuel (skipSpace more)).map fun (vs, after) => (v :: vs, after)
      | _ => .error .malformed

/-- Reads the entries of an object up to its brace, after those read so far. -/
def entries : Nat → List Char → List (Value × Value) →
    Except ReadError (List (Value × Value) × List Char)
  | 0, _, _ => .error .malformed
  | fuel + 1, text, sofar =>
    match text with
    | '"' :: rest =>
      match stringBody rest with
      | none => .error .malformed
      | some (key, rest) =>
        match skipSpace rest with
        | ':' :: rest =>
          match value fuel (skipSpace rest) with
          | .error e => .error e
          | .ok (v, rest) =>
            let sofar := Value.insert sofar (.string (String.ofList key)) v
            match skipSpace rest with
            | '\x7d' :: after => .ok (sofar, after)
            | ',' :: more => entries fuel (skipSpace more) sofar
            | _ => .error .malformed
        | _ => .error .malformed
    | _ => .error .malformed
end

/-- **Reads a whole text as one value.** -/
def read (text : String) : Except ReadError Value :=
  let chars := text.toList
  match value (chars.length + 1) (skipSpace chars) with
  | .error e => .error e
  | .ok (v, rest) => if (skipSpace rest).isEmpty then .ok v else .error .malformed

/-! ## Halves of pairs -/

/-- A text in which the mark stands twice wherever it stood or was written by its number. -/
def markTwice : List Char → List Char
  | '\\' :: 'u' :: a :: b :: c :: d :: rest =>
    if hexNumber? [a, b, c, d] = some mark.toNat then
      '\\' :: 'u' :: a :: b :: c :: d :: mark :: markTwice rest
    else '\\' :: 'u' :: a :: b :: c :: d :: markTwice rest
  | '\\' :: c :: rest => '\\' :: c :: markTwice rest
  | c :: rest => if c = mark then mark :: mark :: markTwice rest else c :: markTwice rest
  | [] => []

/-- A text whose strings are read in a document's spelling: if a half of a pair may be among them,
the mark is doubled first. -/
def inMarking (text : String) : String :=
  match Marking.ofText text with
  | .plain => text
  | .marked => String.ofList (markTwice text.toList)

end TypeCatalog.Json
