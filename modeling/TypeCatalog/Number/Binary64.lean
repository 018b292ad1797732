/-!
# Number/Binary64 — floating-point numbers of 64 bits

A number of the format is a sign, a significand below `2 ^ 53` and an exponent of two, or one of
the three values outside the line of numbers. All arithmetic is exact on naturals and rounded once,
to the nearest number of the format and, half-way, to the even significand (`ofRatio`). So a value
can be computed with and reasoned about without a machine's own floating point.
-/

namespace TypeCatalog.Number

/-- A floating-point number of 64 bits. -/
inductive Binary64 where
  /-- Not a number. -/
  | nan
  /-- Beyond the largest number. -/
  | infinite (negative : Bool)
  /-- `significand · 2 ^ exponent`, with a sign that zero has too. -/
  | finite (negative : Bool) (significand : Nat) (exponent : Int)
  deriving DecidableEq, Repr

namespace Binary64

/-- The exponent of the smallest positive number. -/
def leastExponent : Int := -1074

/-- The exponent of the largest numbers. -/
def greatestExponent : Int := 971

/-- Zero of a sign. -/
def zero (negative : Bool) : Binary64 := finite negative 0 leastExponent

/-- A power of two. -/
def twoTo (n : Nat) : Nat := Nat.pow 2 n

/-- A power of ten. -/
def tenTo (n : Nat) : Nat := Nat.pow 10 n

/-- A natural over another as a quotient rounded to nearest, half-way to even. -/
def roundedQuotient (num den : Nat) : Nat :=
  let floor := num / den
  let rest := num % den
  if 2 * rest < den then floor
  else if den < 2 * rest then floor + 1
  else floor + floor % 2

/-- `num / den` in units of `2 ^ e`, as a fraction of naturals. -/
def inUnits (num den : Nat) (e : Int) : Nat × Nat :=
  if e < 0 then (num * twoTo e.natAbs, den) else (num, den * twoTo e.natAbs)

/-- The exponent at which `num / den` has 53 significant bits, or the least exponent if that is
larger. The logarithms leave two candidates; the quotient tells them apart. -/
def exponentFor (num den : Nat) : Int :=
  let low : Int := (num.log2 : Int) - (den.log2 : Int) - 53
  let (n, d) := inUnits num den low
  let e := if n / d < twoTo 53 then low else low + 1
  if e < leastExponent then leastExponent else e

/-- **The number nearest to `num / den`**, half-way the one with the even significand; beyond the
largest number, infinity. -/
def ofRatio (negative : Bool) (num den : Nat) : Binary64 :=
  if num = 0 then zero negative
  else
    let e := exponentFor num den
    let (n, d) := inUnits num den e
    let m := roundedQuotient n d
    let (m, e) := if m < twoTo 53 then (m, e) else (twoTo 52, e + 1)
    if greatestExponent < e then infinite negative else finite negative m e

/-- The number nearest to `significand · 10 ^ exponent`. Exponents far outside the format are
answered at once, so that no huge power is computed. -/
def ofDecimal (negative : Bool) (significand : Nat) (exponent : Int) : Binary64 :=
  if significand = 0 then zero negative
  else if 0 ≤ exponent then
    if 400 < exponent then infinite negative
    else ofRatio negative (significand * tenTo exponent.natAbs) 1
  else if significand.log2 + 1100 < 3 * exponent.natAbs then zero negative
  else ofRatio negative significand (tenTo exponent.natAbs)

/-- The number nearest to an integer. -/
def ofInt (n : Int) : Binary64 := ofRatio (n < 0) n.natAbs 1

/-- The number with the other sign. -/
def neg : Binary64 → Binary64
  | nan => nan
  | infinite s => infinite !s
  | finite s m e => finite (!s) m e

/-- `(-1) ^ s · m · 2 ^ e` rounded. -/
def ofScaled (negative : Bool) (m : Nat) (e : Int) : Binary64 :=
  if e < 0 then ofRatio negative m (twoTo e.natAbs) else ofRatio negative (m * twoTo e.natAbs) 1

/-- The rounded product. -/
def mul : Binary64 → Binary64 → Binary64
  | nan, _ => nan
  | _, nan => nan
  | infinite s, infinite t => infinite (s != t)
  | infinite s, finite t m _ => if m = 0 then nan else infinite (s != t)
  | finite s m _, infinite t => if m = 0 then nan else infinite (s != t)
  | finite s m e, finite t n f => ofScaled (s != t) (m * n) (e + f)

/-- A finite number as an integer in units of `2 ^ e`, for an `e` no larger than its exponent. -/
def toUnits (negative : Bool) (m : Nat) (exponent e : Int) : Int :=
  let n : Int := (m * twoTo (exponent - e).natAbs : Nat)
  if negative then -n else n

/-- The rounded sum. A sum of zeros is negative only if both are. -/
def add : Binary64 → Binary64 → Binary64
  | nan, _ => nan
  | _, nan => nan
  | infinite s, infinite t => if s = t then infinite s else nan
  | infinite s, finite _ _ _ => infinite s
  | finite _ _ _, infinite t => infinite t
  | finite s m e, finite t n f =>
    let unit := min e f
    let sum := toUnits s m e unit + toUnits t n f unit
    if sum = 0 then zero (s && t && m = 0 && n = 0) else ofScaled (sum < 0) sum.natAbs unit

/-- Whether a finite number equals an integer. -/
def isInt (x : Binary64) (n : Int) : Bool :=
  match x with
  | nan => false
  | infinite _ => false
  | finite s m e =>
    if e < 0 then toUnits s m 0 0 = n * (twoTo e.natAbs : Nat) else toUnits s m e 0 = n

/-- Whether two numbers are the same number. Zeros of both signs are; and so is the value that is
no number with itself, as this is used to find a key again. -/
def same : Binary64 → Binary64 → Bool
  | finite _ 0 _, finite _ 0 _ => true
  | x, y => x == y

end Binary64

end TypeCatalog.Number
