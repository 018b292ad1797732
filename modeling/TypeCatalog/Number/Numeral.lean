import TypeCatalog.Number.Binary64
import TypeCatalog.Text.Digit

/-!
# Number/Numeral — numbers read from text

`integer?` reads an integer in a base, `float?` a floating-point number. Both take white space
around the number, a sign, and the decimal digits of every script. A decimal integer has at most
`digitLimit` digits.
-/

namespace TypeCatalog.Number

open TypeCatalog.Text

/-- The most digits that a decimal integer may have when it is read or written. -/
def digitLimit : Nat := 4300

/-- White space around a number. The separators of files, groups, records and units are none. -/
def isSpace (c : Char) : Bool :=
  CodeRanges.contains
    [(0x9, 0xD), (0x20, 0x20), (0x85, 0x85), (0xA0, 0xA0), (0x1680, 0x1680), (0x2000, 0x200A),
     (0x2028, 0x2029), (0x202F, 0x202F), (0x205F, 0x205F), (0x3000, 0x3000)] c

/-- A text without the white space at its ends. -/
def trimmed (text : List Char) : List Char :=
  ((text.dropWhile isSpace).reverse.dropWhile isSpace).reverse

/-- A leading sign, and what follows it. -/
def splitSign : List Char → Bool × List Char
  | '-' :: rest => (true, rest)
  | '+' :: rest => (false, rest)
  | text => (false, text)

/-- The value of a digit up to `z`. -/
def digitUpTo36? (c : Char) : Option Nat :=
  if 'a' ≤ c ∧ c ≤ 'z' then some (c.toNat - 'a'.toNat + 10)
  else if 'A' ≤ c ∧ c ≤ 'Z' then some (c.toNat - 'A'.toNat + 10)
  else digitValue? c

/-- The value of digits in a base, or none if one of them is no digit of the base. -/
def digitsValue? (base : Nat) : List Char → Nat → Option Nat
  | [], value => some value
  | c :: rest, value =>
    match digitUpTo36? c with
    | none => none
    | some d => if d < base then digitsValue? base rest (value * base + d) else none

/-- The letter that may mark a base after a leading zero. -/
def baseMark (base : Nat) (c : Char) : Bool :=
  match base with
  | 2 => c == 'b' || c == 'B'
  | 8 => c == 'o' || c == 'O'
  | 16 => c == 'x' || c == 'X'
  | _ => false

/-- Digits without the mark of their base. -/
def withoutMark (base : Nat) : List Char → List Char
  | '0' :: c :: rest => if baseMark base c then rest else '0' :: c :: rest
  | text => text

/-- An integer in a base: a sign, perhaps the base's mark, and at least one digit. -/
def integer? (base : Nat) (text : List Char) : Option Int :=
  let (negative, body) := splitSign (trimmed text)
  let digits := withoutMark base body
  if digits.isEmpty || (base == 10 && digitLimit < digits.length) then none
  else (digitsValue? base digits 0).map fun n => if negative then -(n : Int) else n

/-- Splits off the decimal digits that a text starts with. -/
def spanDigits (text : List Char) : List Nat × List Char :=
  let digits := text.takeWhile isDecimalDigit
  (digits.filterMap digitValue?, text.drop digits.length)

/-- The value of decimal digits. -/
def ofDigits (digits : List Nat) : Nat := digits.foldl (fun n d => n * 10 + d) 0

/-- An exponent: nothing, or a mark, a sign and digits. -/
def exponent? : List Char → Option Int
  | [] => some 0
  | c :: rest =>
    if c = 'e' ∨ c = 'E' then
      let (negative, body) := splitSign rest
      let (digits, after) := spanDigits body
      if digits.isEmpty || !after.isEmpty then none
      else some (if negative then -(ofDigits digits : Int) else ofDigits digits)
    else none

/-- A number without sign: digits with a point among them or at either end, and an exponent. -/
def unsignedFloat? (negative : Bool) (text : List Char) : Option Binary64 :=
  let (whole, rest) := spanDigits text
  let (fraction, rest) := match rest with
    | '.' :: after => spanDigits after
    | other => ([], other)
  if whole.isEmpty && fraction.isEmpty then none
  else (exponent? rest).map fun e =>
    Binary64.ofDecimal negative (ofDigits (whole ++ fraction)) (e - (fraction.length : Int))

/-- A floating-point number: a sign, then digits or one of the words for the values that no digits
have, in any case of letters. -/
def float? (text : List Char) : Option Binary64 :=
  let (negative, body) := splitSign (trimmed text)
  match String.ofList (body.map Char.toLower) with
  | "inf" => some (.infinite negative)
  | "infinity" => some (.infinite negative)
  | "nan" => some .nan
  | _ => unsignedFloat? negative body

/-- The decimal text of an integer, or none if it has too many digits to be written. -/
def integerText? (n : Int) : Option String :=
  let digits := Nat.toDigits 10 n.natAbs
  if digitLimit < digits.length then none
  else some (String.ofList (if n < 0 then '-' :: digits else digits))

end TypeCatalog.Number
