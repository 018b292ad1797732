import TypeCatalog.Number.Binary64

/-!
# Number/Shortest — the shortest decimal that reads back

`Binary64.shortestDigits` finds the fewest decimal digits that round to a given number, and of
those the nearest to it. The numbers that round to `m · 2 ^ e` fill an interval around it (its ends
belong to it when `m` is even). On the grid of multiples of `10 ^ k` only the two neighbours of the
number need a look: if any point of the grid lies in the interval, one of them does.
`DecimalStyle` then says how digits and exponent are laid out.
-/

namespace TypeCatalog.Number

/-- Digits and an exponent of ten: `digits · 10 ^ exponent`. -/
structure Decimal where
  digits : Nat
  exponent : Int
  deriving DecidableEq, Repr

namespace Binary64

/-- The fraction `m · 2 ^ e · 10 ^ (-k)` of naturals. -/
def onGrid (m : Nat) (e k : Int) : Nat × Nat :=
  let num := m * (if 0 ≤ e then twoTo e.natAbs else 1) * (if k < 0 then tenTo k.natAbs else 1)
  let den := (if e < 0 then twoTo e.natAbs else 1) * (if 0 ≤ k then tenTo k.natAbs else 1)
  (num, den)

/-- Whether the multiple `d` of the grid unit rounds to `m · 2 ^ e`, where a quarter of the
number's own unit is one over `den` times `quarter`, and the number is `num / den`. Below a power
of two the numbers lie twice as dense, so the interval is half as wide there. -/
def roundsBack (m : Nat) (e : Int) (num den quarter : Nat) (d : Nat) : Bool :=
  let lowGap := if m = twoTo 52 ∧ leastExponent < e then quarter else 2 * quarter
  let low := num * 4 - lowGap
  let high := num * 4 + 2 * quarter
  let at4 := d * den * 4
  if m % 2 = 0 then low ≤ at4 && at4 ≤ high else low < at4 && at4 < high

/-- The neighbour on the grid of multiples of `10 ^ k` that reads back, the nearer of the two, and
half-way the even one. -/
def onGrid? (m : Nat) (e k : Int) : Option Nat :=
  let (num, den) := onGrid m e k
  let (quarter, _) := onGrid 1 e k
  let floor := num / den
  let rest := num % den
  let lowFits := roundsBack m e num den quarter floor
  let highFits := roundsBack m e num den quarter (floor + 1)
  match lowFits, highFits with
  | false, false => none
  | true, false => some floor
  | false, true => some (floor + 1)
  | true, true =>
    if 2 * rest < den then some floor
    else if den < 2 * rest then some (floor + 1)
    else some (floor + floor % 2)

/-- The number of decimal digits of a natural. -/
def digitCount (n : Nat) : Nat := (Nat.toDigits 10 n).length

/-- The exponent of the first decimal digit of `m · 2 ^ e`. -/
def leadingExponent (m : Nat) (e : Int) : Int :=
  let (num, den) := onGrid m e 0
  if den ≤ num then (digitCount (num / den) : Int) - 1
  else
    -- below one: count how often the denominator outgrows the numerator
    let guess := (digitCount den : Int) - digitCount num
    let (n, d) := onGrid m e (-guess)
    if d ≤ n then -guess else -guess - 1

/-- Tries grids of one digit, two digits and so on; seventeen always suffice. -/
def shortestFrom (m : Nat) (e lead : Int) : Nat → Nat → Decimal
  | 0, _ => ⟨m, 0⟩
  | tries + 1, count =>
    let k := lead - (count : Int) + 1
    match onGrid? m e k with
    | some d => ⟨d, k⟩
    | none => shortestFrom m e lead tries (count + 1)

/-- **The fewest digits that read back as `m · 2 ^ e`**, nearest to it among those. -/
def shortestDigits (m : Nat) (e : Int) : Decimal :=
  if m = 0 then ⟨0, 0⟩ else shortestFrom m e (leadingExponent m e) 17 1

end Binary64

namespace Decimal

/-- The digits without the zeros at their end, which the exponent takes up. -/
def significantDigits (d : Decimal) : List Char × Int :=
  let all := Nat.toDigits 10 d.digits
  let kept := (all.reverse.dropWhile (· == '0')).reverse
  if kept.isEmpty then (['0'], 0) else (kept, d.exponent + ((all.length - kept.length : Nat) : Int))

end Decimal

/-- How a decimal is laid out. -/
structure DecimalStyle where
  /-- The least exponent of the first digit that is written out in places. -/
  leastPlace : Int
  /-- The first exponent that is too large for that. -/
  placesEnd : Int
  /-- The least number of digits of an exponent. -/
  exponentWidth : Nat
  infinity : String
  notANumber : String

namespace DecimalStyle

/-- Digits in places, with one place at least on either side of the point. -/
def inPlaces (digits : List Char) (exponent : Int) : List Char :=
  let count : Int := digits.length
  if 0 ≤ exponent then digits ++ List.replicate exponent.natAbs '0' ++ ['.', '0']
  else if 0 < count + exponent then
    let whole := (count + exponent).natAbs
    digits.take whole ++ '.' :: digits.drop whole
  else '0' :: '.' :: List.replicate (count + exponent).natAbs '0' ++ digits

/-- One digit before the point, none after it if there is none, then a signed exponent. -/
def withExponent (style : DecimalStyle) (digits : List Char) (lead : Int) : List Char :=
  let fraction := match digits.drop 1 with
    | [] => []
    | rest => '.' :: rest
  let power := Nat.toDigits 10 lead.natAbs
  let padding := List.replicate (style.exponentWidth - power.length) '0'
  digits.take 1 ++ fraction ++ 'e' :: (if lead < 0 then '-' else '+') :: padding ++ power

/-- The text of a number. -/
def text (style : DecimalStyle) : Binary64 → String
  | .nan => style.notANumber
  | .infinite negative => (if negative then "-" else "") ++ style.infinity
  | .finite negative m e =>
    let (digits, exponent) := (Binary64.shortestDigits m e).significantDigits
    let lead := exponent + digits.length - 1
    let body :=
      if style.leastPlace ≤ lead ∧ lead < style.placesEnd then inPlaces digits exponent
      else withExponent style digits lead
    (if negative then "-" else "") ++ String.ofList body

/-- Numbers are written in places from `0.0001` up to below `10 ^ 16`, else with an exponent of
two digits or more. -/
def plain : DecimalStyle := ⟨-4, 16, 2, "inf", "nan"⟩

/-- As `plain`, with the words that a JSON document has for what is no finite number. -/
def json : DecimalStyle := { plain with infinity := "Infinity", notANumber := "NaN" }

end DecimalStyle

end TypeCatalog.Number
