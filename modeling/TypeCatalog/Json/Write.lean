import TypeCatalog.Number.Numeral
import TypeCatalog.Number.Shortest
import TypeCatalog.Text.Quoted
import TypeCatalog.Value.Printed

/-!
# Json/Write — values as JSON on one line

`Json.line` writes a value with the entries of objects sorted by key, a space after each comma and
colon, and all characters beyond the printable ones of the seven-bit code by their sixteen-bit
units. Values that JSON has no form for are written as the string that messages show.
-/

namespace TypeCatalog.Json

open TypeCatalog.Number TypeCatalog.Text

/-- A sixteen-bit unit by its number. -/
def unitEscape (n : Nat) : List Char := '\\' :: 'u' :: hexPadded 4 n

/-- A character between quotes. -/
def charText (c : Char) : List Char :=
  if c = '"' then ['\\', '"']
  else if c = '\\' then ['\\', '\\']
  else if c = '\n' then ['\\', 'n']
  else if c = '\r' then ['\\', 'r']
  else if c = '\t' then ['\\', 't']
  else if c = '\x0c' then ['\\', 'f']
  else if c = '\x08' then ['\\', 'b']
  else if 0x20 ≤ c.toNat ∧ c.toNat ≤ 0x7E then [c]
  else if c.toNat < 0x10000 then unitEscape c.toNat
  else
    let n := c.toNat - 0x10000
    unitEscape (0xD800 + n / 0x400) ++ unitEscape (0xDC00 + n % 0x400)

/-- A string between quotes. -/
def stringText (s : String) : String :=
  String.ofList ('"' :: s.toList.flatMap charText ++ ['"'])

/-- Puts an entry among others that are sorted by key. -/
def insertSorted {α : Type} (entry : String × α) : List (String × α) → List (String × α)
  | [] => [entry]
  | other :: rest =>
    if entry.1 < other.1 then entry :: other :: rest else other :: insertSorted entry rest

/-- Sorts entries by key. -/
def sortEntries {α : Type} (entries : List (String × α)) : List (String × α) :=
  entries.foldr insertSorted []

/-- The key of an entry as a string. -/
def keyText : Value → String
  | .string s => s
  | .null => "null"
  | .bool b => if b then "true" else "false"
  | .float x => DecimalStyle.json.text x
  | v => (v.printed?).getD ""

/-- The text of entries whose values are written. -/
def objectText (entries : List (String × String)) : String :=
  "\x7b" ++ ", ".intercalate ((sortEntries entries).map fun (k, t) =>
    stringText k ++ ": " ++ t) ++ "\x7d"

mutual
/-- **A value on one line.** -/
def line : Value → String
  | .null => "null"
  | .bool b => if b then "true" else "false"
  | .int n => toString n
  | .float x => DecimalStyle.json.text x
  | .string s => stringText s
  | .list items => "[" ++ ", ".intercalate (lines items) ++ "]"
  | .object entries => objectText (entryLines entries)
  | .pair a b => "[" ++ line a ++ ", " ++ line b ++ "]"
  | v => stringText ((v.printed?).getD "")

/-- The items of a list, each written. -/
def lines : List Value → List String
  | [] => []
  | v :: rest => line v :: lines rest

/-- The entries of an object, each with its value written. -/
def entryLines : List (Value × Value) → List (String × String)
  | [] => []
  | (k, v) :: rest => (keyText k, line v) :: entryLines rest
end

end TypeCatalog.Json
