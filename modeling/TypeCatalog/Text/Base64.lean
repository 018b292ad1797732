/-!
# Text/Base64 — bytes written with sixty-four characters

`Base64.decode?` reads four characters as three bytes. Characters outside the alphabet are passed
over; padding ends the text once it fills up a group that holds at least two characters. A group
that is left open at the end has no bytes.
-/

namespace TypeCatalog.Text.Base64

/-- The six bits that a character stands for. -/
def sextet? (c : Char) : Option Nat :=
  if 'A' ≤ c ∧ c ≤ 'Z' then some (c.toNat - 'A'.toNat)
  else if 'a' ≤ c ∧ c ≤ 'z' then some (c.toNat - 'a'.toNat + 26)
  else if '0' ≤ c ∧ c ≤ '9' then some (c.toNat - '0'.toNat + 52)
  else if c = '+' then some 62
  else if c = '/' then some 63
  else none

/-- Reads on in a group of which some characters have been read: how many, the bits of theirs that
are not yet in a byte, and how much padding came right after them. -/
def decodeFrom (count left pads : Nat) : List Char → Option (List UInt8)
  | [] => if count = 0 then some [] else none
  | c :: rest =>
    if c = '=' then
      if 2 ≤ count then
        if 4 ≤ count + pads + 1 then some [] else decodeFrom count left (pads + 1) rest
      else decodeFrom count left pads rest
    else
      match sextet? c with
      | none => decodeFrom count left pads rest
      | some bits =>
        match count with
        | 0 => decodeFrom 1 bits 0 rest
        | 1 => (decodeFrom 2 (bits % 16) 0 rest).map ((left * 4 + bits / 16).toUInt8 :: ·)
        | 2 => (decodeFrom 3 (bits % 4) 0 rest).map ((left * 16 + bits / 4).toUInt8 :: ·)
        | _ => (decodeFrom 0 0 0 rest).map ((left * 64 + bits).toUInt8 :: ·)

/-- The bytes that a text writes, or none if its last group is open. -/
def decode? (text : List Char) : Option (List UInt8) := decodeFrom 0 0 0 text

end TypeCatalog.Text.Base64
