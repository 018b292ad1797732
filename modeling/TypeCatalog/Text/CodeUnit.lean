/-!
# Text/CodeUnit — characters written by number

Both document formats write a character by the hexadecimal digits of its number. A character beyond
the first plane has two sixteen-bit units, and its number may be written as theirs: `pairChar?`
joins the halves of such a pair. A half that stands alone is no character, and yet it is part of the
text that is written so; `unitText` spells it with a `mark` before a character that stands for it.
-/

namespace TypeCatalog.Text

/-- The value of a hexadecimal digit. -/
def hexValue? (c : Char) : Option Nat :=
  if '0' ≤ c ∧ c ≤ '9' then some (c.toNat - '0'.toNat)
  else if 'a' ≤ c ∧ c ≤ 'f' then some (c.toNat - 'a'.toNat + 10)
  else if 'A' ≤ c ∧ c ≤ 'F' then some (c.toNat - 'A'.toNat + 10)
  else none

/-- The number that hexadecimal digits write. -/
def hexNumber? (digits : List Char) : Option Nat :=
  digits.foldlM (fun n c => (hexValue? c).map (n * 16 + ·)) 0

/-- Whether a number is that of half a pair. -/
def isHalf (n : Nat) : Bool := 0xD800 ≤ n && n < 0xE000

/-- The mark before what stands for half a pair: a code point that is never assigned. -/
def mark : Char := '\uFFFF'

/-- The distance from half a pair to the character that stands for it. -/
def halfShift : Nat := 0x800

/-- What a number writes: a character, or half a pair. -/
def unitText (n : Nat) : List Char :=
  if isHalf n then [mark, Char.ofNat (n + halfShift)] else [Char.ofNat n]

/-- The character of two units, if they are the halves of a pair. -/
def pairChar? (high low : Nat) : Option Char :=
  if 0xD800 ≤ high ∧ high < 0xDC00 ∧ 0xDC00 ≤ low ∧ low < 0xE000 then
    some (Char.ofNat (0x10000 + (high - 0xD800) * 0x400 + (low - 0xDC00)))
  else none

end TypeCatalog.Text
