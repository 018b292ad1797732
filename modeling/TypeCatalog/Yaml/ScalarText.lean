import TypeCatalog.Text.Marking
import TypeCatalog.Yaml.Cursor
import TypeCatalog.Yaml.Fault

/-!
# Yaml/ScalarText — the text of scalars

A scalar is plain, in single or double quotes, or a literal or folded block. Each reader takes the
cursor at the scalar's first character and returns the text and the cursor after it. In all forms a
single line break between two lines of text is read as a space, and more breaks as one fewer
(`foldedBreaks`); a literal block keeps them all.
-/

namespace TypeCatalog.Yaml

open TypeCatalog.Text

/-- A line break and the empty lines after it, as they are read in running text. -/
def foldedBreaks (first : Char) (others : List Char) : List Char :=
  if first != '\n' then first :: others
  else if others.isEmpty then [' ']
  else others

/-! ## Plain scalars -/

/-- Whether a colon before this character ends a plain scalar. -/
def endsAfterColon (inFlow : Bool) (following : Option Char) : Bool :=
  following.all fun c => isBlank c || (inFlow && (c == ',' || c == '[' || c == ']' ||
    c == '\x7b' || c == '\x7d'))

/-- The run of characters of a plain scalar up to a blank or to what ends the scalar. -/
def plainRun (inFlow : Bool) : List Char → List Char
  | [] => []
  | c :: rest =>
    if isBlank c || (c == ':' && endsAfterColon inFlow rest.head?) ||
        (inFlow && (c == ',' || c == '?' || c == '[' || c == ']' || c == '\x7b' || c == '\x7d'))
    then []
    else c :: plainRun inFlow rest

/-- The empty lines that follow, up to a document's first or last line; whether one was met. -/
def plainBreaks : Nat → Cursor → List Char × Cursor × Bool
  | 0, c => ([], c, false)
  | fuel + 1, c =>
    let c := c.skipSpaces
    match c.break? with
    | none => ([], c, false)
    | some (x, c) =>
      if c.seesAnyMarker then ([x], c, true)
      else
        let (xs, c, marker) := plainBreaks fuel c
        (x :: xs, c, marker)

/-- What stands between two runs of a plain scalar: its text, the cursor after it, and whether a
line has ended. An empty text ends the scalar. -/
def plainGap (c : Cursor) : List Char × Cursor × Bool :=
  let (spaces, c) := c.span (· == ' ')
  match c.break? with
  | none => (spaces, c, false)
  | some (first, c) =>
    if c.seesAnyMarker then ([], c, true)
    else
      let (others, c, marker) := plainBreaks c.rounds c
      (if marker then [] else foldedBreaks first others, c, true)

/-- Reads on in a plain scalar after a gap. The last part of the result says whether a line has
ended since the last run. -/
def plainFrom (inFlow : Bool) (indent : Int) : Nat → Cursor → List Char → Bool →
    List Char × Cursor × Bool
  | 0, c, _, ended => ([], c, ended)
  | fuel + 1, c, gap, ended =>
    let run := if c.sees '#' then [] else plainRun inFlow c.rest
    if run.isEmpty then ([], c, ended)
    else
      let (between, after, ended) := plainGap (c.skip run.length)
      if between.isEmpty || after.sees '#' || (!inFlow && (after.column : Int) < indent) then
        (gap ++ run, after, ended)
      else
        let (more, after, ended) := plainFrom inFlow indent fuel after between ended
        (gap ++ run ++ more, after, ended)

/-- **Reads a plain scalar.** In block context its lines stand at `indent` at least. -/
def plainText (inFlow : Bool) (indent : Int) (c : Cursor) : String × Cursor × Bool :=
  let (text, after, ended) := plainFrom inFlow indent c.rounds c [] false
  (String.ofList text, after, ended)

/-! ## Scalars in quotes -/

/-- The character of an escape of one letter. -/
def escape? : Char → Option Char
  | '0' => some '\x00'
  | 'a' => some '\x07'
  | 'b' => some '\x08'
  | 't' => some '\t'
  | '\t' => some '\t'
  | 'n' => some '\n'
  | 'v' => some '\x0b'
  | 'f' => some '\x0c'
  | 'r' => some '\r'
  | 'e' => some '\x1b'
  | ' ' => some ' '
  | '"' => some '"'
  | '\\' => some '\\'
  | '/' => some '/'
  | 'N' => some '\x85'
  | '_' => some '\xa0'
  | 'L' => some '\u2028'
  | 'P' => some '\u2029'
  | _ => none

/-- How many hexadecimal digits an escape has. -/
def escapeWidth? : Char → Option Nat
  | 'x' => some 2
  | 'u' => some 4
  | 'U' => some 8
  | _ => none

/-- The number that some hexadecimal digits write. -/
def codeNumber? (c : Cursor) (width : Nat) : Option Nat :=
  let digits := c.rest.take width
  if digits.length < width then none else hexNumber? digits

/-- Reads an escape by number, after its letter. Two halves of a pair are not joined. -/
def codeEscape (c : Cursor) (width : Nat) : Except Fault (List Char × Cursor) :=
  match codeNumber? c width with
  | none => .error .malformed
  | some n =>
    if 0x7FFFFFFF < n then .error .overflow
    else if 0x10FFFF < n then .error .codePoint
    else .ok (markedUnit n, c.skip width)

/-- The empty lines that follow in a scalar in quotes; a document's first or last line must not
be among them. -/
def quotedBreaks : Nat → Cursor → Except Fault (List Char × Cursor)
  | 0, _ => .error .malformed
  | fuel + 1, c =>
    if c.seesAnyMarker then .error .malformed
    else
      let c := c.skipWhile fun x => x == ' ' || x == '\t'
      match c.break? with
      | none => .ok ([], c)
      | some (x, c) => (quotedBreaks fuel c).map fun (xs, c) => (x :: xs, c)

/-- Reads a scalar in quotes up to its closing quote. -/
def quotedFrom (quote : Char) : Nat → Cursor → Except Fault (List Char × Cursor)
  | 0, _ => .error .malformed
  | fuel + 1, c =>
    match c.peek? with
    | none => .error .malformed
    | some x =>
      if x == quote then
        if quote == '\'' && c.peekAt? 1 == some '\'' then
          (quotedFrom quote fuel (c.skip 2)).map fun (xs, c) => ('\'' :: xs, c)
        else .ok ([], c.next)
      else if quote == '"' && x == '\\' then
        let c := c.next
        match c.peek? with
        | none => .error .malformed
        | some letter =>
          match escape? letter, escapeWidth? letter with
          | some y, _ => (quotedFrom quote fuel c.next).map fun (xs, c) => (y :: xs, c)
          | none, some width =>
            match codeEscape c.next width with
            | .error e => .error e
            | .ok (ys, c) => (quotedFrom quote fuel c).map fun (xs, c) => (ys ++ xs, c)
          | none, none =>
            if isBreak letter then
              match quotedBreaks c.rounds c.next with
              | .error e => .error e
              | .ok (breaks, c) =>
                (quotedFrom quote fuel c).map fun (xs, c) => (breaks ++ xs, c)
            else .error .malformed
      else if isBlank x then
        let (spaces, c) := c.span fun y => y == ' ' || y == '\t'
        match c.break? with
        | none => (quotedFrom quote fuel c).map fun (xs, c) => (spaces ++ xs, c)
        | some (first, c) =>
          match quotedBreaks c.rounds c with
          | .error e => .error e
          | .ok (others, c) =>
            (quotedFrom quote fuel c).map fun (xs, c) => (foldedBreaks first others ++ xs, c)
      else (quotedFrom quote fuel c.next).map fun (xs, c) => (x :: xs, c)

/-- **Reads a scalar in quotes**, with the cursor at the opening quote. -/
def quotedText (quote : Char) (c : Cursor) : Except Fault (String × Cursor) :=
  (quotedFrom quote c.rounds c.next).map fun (text, c) => (String.ofList text, c)

/-! ## Blocks -/

/-- What becomes of the line breaks at the end of a block. -/
inductive Chomping where
  /-- All are dropped. -/
  | strip
  /-- One is kept. -/
  | clip
  /-- All are kept. -/
  | keep
  deriving DecidableEq, Repr

/-- A sign for the line breaks at the end. -/
def chomping? : Option Char → Option Chomping
  | some '+' => some .keep
  | some '-' => some .strip
  | _ => none

/-- A digit that says how far a block is indented. -/
def indentDigit? : Option Char → Option Nat
  | some c => if '0' ≤ c ∧ c ≤ '9' then some (c.toNat - '0'.toNat) else none
  | none => none

/-- Reads what follows a block's first character on its line: a sign and a digit, in either order,
each of which may be absent, then spaces and perhaps a comment. -/
def blockHeader (c : Cursor) : Except Fault (Chomping × Option Nat × Cursor) :=
  let (chomping, digit, c) :=
    match chomping? c.peek?, indentDigit? c.peek? with
    | some sign, _ =>
      match indentDigit? c.next.peek? with
      | some d => (sign, some d, c.skip 2)
      | none => (sign, none, c.next)
    | none, some d =>
      match chomping? c.next.peek? with
      | some sign => (sign, some d, c.skip 2)
      | none => (.clip, some d, c.next)
    | none, none => (.clip, none, c)
  if digit == some 0 || !c.atSpaceOrEnd then .error .malformed
  else
    let c := c.skipSpaces
    let c := if c.sees '#' then c.skipLine else c
    if !c.atLineEnd then .error .malformed
    else .ok (chomping, digit, (c.break?.map (·.2)).getD c)

/-- The empty lines before a block whose indentation is not given, and the widest of their columns
and of the first line's. -/
def leadingBreaks : Nat → Cursor → Nat → List Char × Nat × Cursor
  | 0, c, widest => ([], widest, c)
  | fuel + 1, c, widest =>
    let c := c.skipSpaces
    let widest := max widest c.column
    match c.break? with
    | none => ([], widest, c)
    | some (x, c) =>
      let (xs, widest, c) := leadingBreaks fuel c widest
      (x :: xs, widest, c)

/-- The cursor after spaces, up to a column. -/
def skipToColumn (column : Nat) (c : Cursor) : Cursor :=
  c.skip (min (column - c.column) (c.rest.takeWhile (· == ' ')).length)

/-- The empty lines that follow in a block. -/
def blockBreaks (indent : Nat) : Nat → Cursor → List Char × Cursor
  | 0, c => ([], c)
  | fuel + 1, c =>
    let c := skipToColumn indent c
    match c.break? with
    | none => ([], c)
    | some (x, c) =>
      let (xs, c) := blockBreaks indent fuel c
      (x :: xs, c)

/-- Whether a line of a block starts with text rather than with a space or a tab. -/
def startsWithText (c : Cursor) : Bool := !(c.sees ' ' || c.sees '\t')

/-- Reads the lines of a block, from the start of one: the text, the break that ended the last line
if there was one, and the empty lines after it. -/
def blockLines (folded : Bool) (indent : Nat) : Nat → Cursor →
    List Char × Option Char × List Char × Cursor
  | 0, c => ([], none, [], c)
  | fuel + 1, c =>
    let text := startsWithText c
    let (line, c) := c.span fun x => !isBreak x
    match c.break? with
    | none => (line, none, [], c)
    | some (ending, c) =>
      let (breaks, c) := blockBreaks indent c.rounds c
      if c.column == indent && c.peek?.isSome then
        let joint :=
          if folded && ending == '\n' && text && startsWithText c then
            if breaks.isEmpty then [' '] else []
          else [ending]
        let (more, last, trailing, c) := blockLines folded indent fuel c
        (line ++ joint ++ breaks ++ more, last, trailing, c)
      else (line, some ending, breaks, c)

/-- **Reads a block**, with the cursor at its first character. Its lines stand deeper than the
`parent` that it belongs to: as deep as its header says, or else as deep as its first line. -/
def blockText (folded : Bool) (parent : Int) (c : Cursor) : Except Fault (String × Cursor) :=
  match blockHeader c.next with
  | .error e => .error e
  | .ok (chomping, digit, c) =>
    let least := (max (parent + 1) 1).toNat
    let (indent, breaks, c) := match digit with
      | some d =>
        let indent := least + d - 1
        let (breaks, c) := blockBreaks indent c.rounds c
        (indent, breaks, c)
      | none =>
        let (breaks, widest, c) := leadingBreaks c.rounds c 0
        (max least widest, breaks, c)
    if c.column == indent && c.peek?.isSome then
      let (text, ending, trailing, c) := blockLines folded indent c.rounds c
      let last := match chomping with
        | .strip => []
        | .clip => ending.toList
        | .keep => ending.toList ++ trailing
      .ok (String.ofList (breaks ++ text ++ last), c)
    else .ok (String.ofList (if chomping == .keep then breaks else []), c)

end TypeCatalog.Yaml
