import TypeCatalog.Yaml.NodeProperty
import TypeCatalog.Yaml.ScalarText

/-!
# Yaml/Layout — tokens from text

`Token.ofText` reads a text as tokens. A `Layout` is what has to be known between two tokens: the
columns of the blocks that are open, the flow brackets that are open, and where a key without a
mark may start. Such a key shows only at the colon after it, so each place where one might have
started is kept as a `PendingKey`, at most one for every open bracket; at the colon, the mark is put
into the tokens at that place (`Layout.markKey`). A key that was needed there, because a block
mapping goes on in that column, must not lapse.

A fault stops the reading. Only the tokens before it that are certain come out (`Layout.certain`): a
token is known once no key can turn out to start before it any more, and to know it the text after
it has to be read.

Every token but the ends of blocks consumes a character, so the length of the text bounds the
rounds.
-/

namespace TypeCatalog.Yaml

/-- A place where a key without a mark may have started. -/
structure PendingKey where
  /-- How many tokens come before it. -/
  tokensBefore : Nat
  /-- Whether the block that is open takes nothing but a key there. -/
  required : Bool
  index : Nat
  line : Nat
  column : Nat

/-- What is known between two tokens. -/
structure Layout where
  cursor : Cursor
  /-- The tokens so far, the latest first. -/
  tokens : List Token := []
  /-- How many tokens there are. -/
  count : Nat := 0
  /-- The column of the innermost open block; `-1` outside all blocks. -/
  indent : Int := -1
  /-- The columns of the blocks around it, the innermost first. -/
  outer : List Int := []
  /-- Whether a key without a mark may start here. -/
  keyAllowed : Bool := true
  /-- What may have been a key outside all flow brackets, or inside the innermost. -/
  pending : Option PendingKey := none
  /-- The same for the brackets around it, the innermost first. -/
  outerPending : List (Option PendingKey) := []

namespace Layout

/-- Whether a flow bracket is open. -/
def inFlow (l : Layout) : Bool := !l.outerPending.isEmpty

/-- Adds a token. -/
def emit (l : Layout) (t : Token) : Layout :=
  { l with tokens := t :: l.tokens, count := l.count + 1 }

/-! ## Blocks -/

/-- Closes the blocks deeper than a column. -/
def closeBlocks (column : Int) (l : Layout) : Layout :=
  if l.inFlow then l else close l.outer l
where
  /-- Closes the innermost block, and those around it in turn. -/
  close : List Int → Layout → Layout
    | [], l => l
    | parent :: rest, l =>
      if column < l.indent then
        close rest { l.emit .blockEnd with indent := parent, outer := rest }
      else l

/-- Opens a block at a column, unless the innermost one stands there or deeper. -/
def openBlock (column : Nat) (start : Token) (l : Layout) : Layout :=
  if l.indent < column then
    { l.emit start with indent := column, outer := l.indent :: l.outer }
  else l

/-! ## Keys without a mark -/

/-- Whether a place for a key still stands: a key is on one line and not too long. -/
def stands (l : Layout) (k : PendingKey) : Bool :=
  k.line == l.cursor.line && l.cursor.index - k.index ≤ 1024

/-- Drops a place that no longer stands; one that was required must not be dropped. -/
def lapse (l : Layout) : Option PendingKey → Except Fault (Option PendingKey)
  | none => .ok none
  | some k =>
    if l.stands k then .ok (some k)
    else if k.required then .error .malformed
    else .ok none

/-- Drops all places that no longer stand. -/
def lapseAll (l : Layout) : Except Fault Layout := do
  let pending ← l.lapse l.pending
  let outerPending ← l.outerPending.mapM l.lapse
  return { l with pending, outerPending }

/-- Gives up the innermost place. -/
def dropKey (l : Layout) : Except Fault Layout :=
  match l.pending with
  | some k => if k.required then .error .malformed else .ok { l with pending := none }
  | none => .ok l

/-- Keeps the cursor's place, if a key may start there. -/
def noteKey (l : Layout) : Except Fault Layout :=
  if l.keyAllowed then
    l.dropKey.map fun l =>
      { l with
        pending := some {
          tokensBefore := l.count
          required := !l.inFlow && l.indent == l.cursor.column
          index := l.cursor.index
          line := l.cursor.line
          column := l.cursor.column } }
  else .ok l

/-- Puts tokens in before those that came after a place. -/
def insertAt (l : Layout) (k : PendingKey) (new : List Token) : Layout :=
  let later := l.count - k.tokensBefore
  { l with
    tokens := l.tokens.take later ++ new ++ l.tokens.drop later
    count := l.count + new.length }

/-- Marks a place as that of a key, opening a block mapping there if none is open. -/
def markKey (l : Layout) (k : PendingKey) : Layout :=
  let l := { l with pending := none, keyAllowed := false }
  if !l.inFlow && decide (l.indent < (k.column : Int)) then
    { l.insertAt k [.key, .blockMapping] with indent := k.column, outer := l.indent :: l.outer }
  else l.insertAt k [.key]

/-! ## Tokens -/

/-- The cursor at the next token, after spaces, comments and line breaks; whether a line ended. -/
def gap : Nat → Cursor → Cursor × Bool
  | 0, c => (c, false)
  | fuel + 1, c =>
    let c := c.skipSpaces
    let c := if c.sees '#' then c.skipLine else c
    match c.break? with
    | some (_, c) => ((gap fuel c).1, true)
    | none => (c, false)

/-- Goes to the next token. Outside flow brackets, a key may start on a new line. -/
def skipGap (l : Layout) : Layout :=
  let c := l.cursor
  let c := if c.index == 0 && c.sees byteOrderMark then c.next else c
  let (c, ended) := gap c.rounds c
  { l with cursor := c, keyAllowed := l.keyAllowed || (ended && !l.inFlow) }

/-- Adds a token that is no part of a block, after closing all blocks. -/
def outside (l : Layout) (token : Token) (c : Cursor) : Except Fault Layout :=
  (l.closeBlocks (-1)).dropKey.map fun l =>
    { l.emit token with cursor := c, keyAllowed := false }

/-- Adds the content of a node, which may be a key. -/
def content (l : Layout) (result : Except Fault (Token × Cursor)) : Except Fault Layout := do
  let l ← l.noteKey
  let (token, c) ← result
  return { l.emit token with cursor := c, keyAllowed := false }

/-- Adds an opening bracket. -/
def openFlow (l : Layout) (token : Token) : Except Fault Layout :=
  l.noteKey.map fun l =>
    { l.emit token with
      cursor := l.cursor.next, keyAllowed := true, pending := none,
      outerPending := l.pending :: l.outerPending }

/-- Adds a closing bracket; one must be open. -/
def closeFlow (l : Layout) (token : Token) : Except Fault Layout := do
  let l ← l.dropKey
  match l.outerPending with
  | [] => .error .malformed
  | pending :: outerPending =>
    return { l.emit token with
      cursor := l.cursor.next, keyAllowed := false, pending, outerPending }

/-- Adds a comma. -/
def comma (l : Layout) : Except Fault Layout :=
  l.dropKey.map fun l => { l.emit .flowEntry with cursor := l.cursor.next, keyAllowed := true }

/-- Adds a mark before an item or a key; outside flow brackets it may open a block. -/
def mark (l : Layout) (block token : Token) (keyAfter : Bool) : Except Fault Layout :=
  if !l.inFlow && !l.keyAllowed then .error .malformed
  else
    let l := if l.inFlow then l else l.openBlock l.cursor.column block
    l.dropKey.map fun l => { l.emit token with cursor := l.cursor.next, keyAllowed := keyAfter }

/-- Adds the colon before a value. -/
def colon (l : Layout) : Except Fault Layout :=
  match l.pending with
  | some k =>
    let l := l.markKey k
    .ok { l.emit .value with cursor := l.cursor.next }
  | none => l.mark .blockMapping .value (!l.inFlow)

/-- Whether a plain scalar starts at the cursor. -/
def startsPlain (l : Layout) (c : Char) : Bool :=
  !(isBlank c || "-?:,[]\x7b\x7d#&*!|>'\"%@`".toList.contains c) ||
    (!l.cursor.blankAt 1 && (c == '-' || (!l.inFlow && (c == '?' || c == ':'))))

/-- Adds a plain scalar. A key may follow it if it ran to the end of its line. -/
def plain (l : Layout) : Except Fault Layout :=
  l.noteKey.map fun l =>
    let (text, c, ended) := plainText l.inFlow (l.indent + 1) l.cursor
    { l.emit (.scalar text true) with cursor := c, keyAllowed := ended }

/-- Adds a block scalar. -/
def block (l : Layout) (folded : Bool) : Except Fault Layout := do
  let l ← l.dropKey
  let (text, c) ← blockText folded l.indent l.cursor
  return { l.emit (.scalar text false) with cursor := c, keyAllowed := true }

/-- The token of a scalar in quotes. -/
def quotedToken (quote : Char) (c : Cursor) : Except Fault (Token × Cursor) :=
  (quotedText quote c).map fun (text, c) => (.scalar text false, c)

/-- Adds the token that starts with a character at the cursor. -/
def token (l : Layout) (x : Char) : Except Fault Layout :=
  let c := l.cursor
  if x == '%' && c.column == 0 then
    match directiveToken c with
    | .ok (t, after) => l.outside t after
    | .error e => .error e
  else if c.column == 0 && c.seesMarker '-' then l.outside .documentStart (c.skip 3)
  else if c.column == 0 && c.seesMarker '.' then l.outside .documentEnd (c.skip 3)
  else if x == '[' then l.openFlow .flowSequence
  else if x == '\x7b' then l.openFlow .flowMapping
  else if x == ']' then l.closeFlow .flowSequenceEnd
  else if x == '\x7d' then l.closeFlow .flowMappingEnd
  else if x == ',' then l.comma
  else if x == '-' && c.blankAt 1 then l.mark .blockSequence .blockEntry true
  else if x == '?' && (l.inFlow || c.blankAt 1) then l.mark .blockMapping .key (!l.inFlow)
  else if x == ':' && (l.inFlow || c.blankAt 1) then l.colon
  else if x == '*' then l.content ((nodeName c).map fun (name, c) => (.alias name, c))
  else if x == '&' then l.content ((nodeName c).map fun (name, c) => (.anchor name, c))
  else if x == '!' then l.content (tagToken c)
  else if x == '|' && !l.inFlow then l.block false
  else if x == '>' && !l.inFlow then l.block true
  else if x == '\'' || x == '"' then l.content (quotedToken x c)
  else if l.startsPlain x then l.plain
  else .error .malformed

/-- Goes to the next token and closes the blocks that it stands outside of. -/
def approach (l : Layout) : Except Fault Layout :=
  l.skipGap.lapseAll.map fun l => l.closeBlocks l.cursor.column

/-- How many tokens are certain: those before every place where a key may still turn out to have
started. -/
def certain (l : Layout) : Nat :=
  (l.pending :: l.outerPending).foldl (fun n p =>
    match p with
    | some k => if l.stands k then min n k.tokensBefore else n
    | none => n) l.count

/-- The tokens that are certain, and the fault that stops the reading after them. -/
def stopped (l : Layout) (cause : Fault) : List Token :=
  (Token.fault cause :: l.tokens.drop (l.count - l.certain)).reverse

/-- The layout after one more token, and whether that was the last. -/
def step (l : Layout) : Except Fault (Layout × Bool) := do
  let l ← l.approach
  match l.cursor.peek? with
  | none =>
    let l ← (l.closeBlocks (-1)).dropKey
    return (l.emit .streamEnd, true)
  | some x => return (← l.token x, false)

/-- All tokens from here on. -/
def run : Nat → Layout → List Token
  | 0, l => l.stopped .malformed
  | fuel + 1, l =>
    match l.step with
    | .error cause => l.stopped cause
    | .ok (l, true) => l.tokens.reverse
    | .ok (l, false) => run fuel l

end Layout

/-- **The tokens of a text.** A character that may not stand in YAML text is a fault before any
token. -/
def Token.ofText (text : String) : List Token :=
  let chars := text.toList
  if chars.all isAllowed then
    let start := Cursor.ofChars chars
    Layout.run start.rounds { cursor := start }
  else [.fault .malformed]

end TypeCatalog.Yaml
