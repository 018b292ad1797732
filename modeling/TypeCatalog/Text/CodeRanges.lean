/-!
# Text/CodeRanges — sets of characters given by ranges of code points

A character class of the Unicode standard is data: a list of inclusive ranges in increasing order.
`CodeRanges.contains` asks for membership; `CodeRanges.offset?` says how far into its range a
character stands, which is what reads the value of a digit.
-/

namespace TypeCatalog.Text

/-- Inclusive ranges of code points, in increasing order. -/
abbrev CodeRanges := List (Nat × Nat)

namespace CodeRanges

/-- Whether a character lies in one of the ranges. -/
def contains (ranges : CodeRanges) (c : Char) : Bool :=
  ranges.any fun r => r.1 ≤ c.toNat && c.toNat ≤ r.2

/-- The distance of a character from the start of the range that holds it. -/
def offset? : CodeRanges → Char → Option Nat
  | [], _ => none
  | (lo, hi) :: rest, c =>
    if lo ≤ c.toNat && c.toNat ≤ hi then some (c.toNat - lo) else offset? rest c

end CodeRanges

end TypeCatalog.Text
