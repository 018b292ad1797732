/-!
# Yaml/Cursor — a place in YAML text

A `Cursor` is what is left of a text together with the place reached: how many characters, lines
and columns lie before it. YAML's structure hangs on columns, so all reading goes through
`Cursor.next`, the only step that moves the place. Line breaks have been unified before, so that a
carriage return does not occur.

A reader that goes round until it finds an end takes a bound on its rounds; each round consumes a
character, so `Cursor.rounds`, one more than the characters that are left, never runs out.
-/

namespace TypeCatalog.Yaml

/-- Line breaks: the line feed, the next-line control and the two separators. -/
def isBreak (c : Char) : Bool := c == '\n' || c == '\x85' || c == '\u2028' || c == '\u2029'

/-- Spaces, tabs and line breaks. -/
def isBlank (c : Char) : Bool := c == ' ' || c == '\t' || isBreak c

/-- A line break as it stands in a scalar: the next-line control counts as a line feed. -/
def breakText (c : Char) : Char := if c == '\x85' then '\n' else c

/-- The mark that may stand before the first character of a text, and takes up no column. -/
def byteOrderMark : Char := '\uFEFF'

/-- Whether a character may stand in YAML text as it is. -/
def isAllowed (c : Char) : Bool :=
  c == '\t' || c == '\n' || c == '\r' || c == '\x85' ||
    (0x20 ≤ c.toNat && c.toNat ≤ 0x7E) || (0xA0 ≤ c.toNat && c.toNat ≤ 0xD7FF) ||
    (0xE000 ≤ c.toNat && c.toNat ≤ 0xFFFD) || 0x10000 ≤ c.toNat

/-- What is left of a text, and the place reached in it. -/
structure Cursor where
  rest : List Char
  /-- How many characters are left. -/
  left : Nat
  index : Nat := 0
  line : Nat := 0
  column : Nat := 0

namespace Cursor

/-- The cursor at the start of a text. -/
def ofChars (text : List Char) : Cursor := { rest := text, left := text.length }

/-- One character on. -/
def next (c : Cursor) : Cursor :=
  match c.rest with
  | [] => c
  | x :: rest =>
    if isBreak x then
      { rest, left := c.left - 1, index := c.index + 1, line := c.line + 1, column := 0 }
    else
      { rest, left := c.left - 1, index := c.index + 1, line := c.line
        column := if x == byteOrderMark then c.column else c.column + 1 }

/-- A bound on the rounds of a reader from here on. -/
def rounds (c : Cursor) : Nat := c.left + 1

/-- Some characters on. -/
def skip : Nat → Cursor → Cursor
  | 0, c => c
  | n + 1, c => skip n c.next

/-- The next character, if the text has not ended. -/
def peek? (c : Cursor) : Option Char := c.rest.head?

/-- The character some places on, if the text reaches there. -/
def peekAt? (c : Cursor) (n : Nat) : Option Char := c.rest[n]?

/-- Whether the next character is a given one. -/
def sees (c : Cursor) (x : Char) : Bool := c.peek? == some x

/-- The characters of a class that come next, and the cursor after them. -/
def span (c : Cursor) (holds : Char → Bool) : List Char × Cursor :=
  let taken := c.rest.takeWhile holds
  (taken, c.skip taken.length)

/-- The cursor after the characters of a class. -/
def skipWhile (c : Cursor) (holds : Char → Bool) : Cursor := (c.span holds).2

/-- The cursor after spaces. -/
def skipSpaces (c : Cursor) : Cursor := c.skipWhile (· == ' ')

/-- A line break and the cursor after it, if one comes next. -/
def break? (c : Cursor) : Option (Char × Cursor) :=
  match c.peek? with
  | some x => if isBreak x then some (breakText x, c.next) else none
  | none => none

/-- The cursor at the end of the line. -/
def skipLine (c : Cursor) : Cursor := c.skipWhile fun x => !isBreak x

/-- Whether the character some places on is blank, or the text ends there. -/
def blankAt (c : Cursor) (n : Nat) : Bool := (c.peekAt? n).all isBlank

/-- Whether a space, a line break or the end of the text comes next. -/
def atSpaceOrEnd (c : Cursor) : Bool := c.peek?.all fun x => x == ' ' || isBreak x

/-- Whether a line break or the end of the text comes next. -/
def atLineEnd (c : Cursor) : Bool := c.peek?.all isBreak

/-- Whether three equal characters come next, with a blank after them: the form of a document's
first and last line. -/
def seesMarker (c : Cursor) (x : Char) : Bool :=
  c.sees x && c.peekAt? 1 == some x && c.peekAt? 2 == some x && c.blankAt 3

/-- Whether a document's first or last line comes next. -/
def seesAnyMarker (c : Cursor) : Bool := c.seesMarker '-' || c.seesMarker '.'

end Cursor

end TypeCatalog.Yaml
