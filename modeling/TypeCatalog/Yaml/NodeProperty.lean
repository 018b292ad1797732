import TypeCatalog.Number.Numeral
import TypeCatalog.Text.CodeUnit
import TypeCatalog.Yaml.Cursor
import TypeCatalog.Yaml.Token

/-!
# Yaml/NodeProperty — names and tags of nodes, and directives

What may stand before a node's content: an anchor that names it, an alias in place of content, a
tag that gives its type. And what may stand before a document: lines that start with a percent
sign. Each reader takes the cursor at the first character and returns a token and the cursor after
it.
-/

namespace TypeCatalog.Yaml

open TypeCatalog.Number TypeCatalog.Text

/-- The characters of names: letters and digits of the seven-bit code, hyphen and underscore. -/
def isNameChar (c : Char) : Bool := c.isAlphanum || c == '-' || c == '_'

/-- The characters of tags. -/
def isTagChar (c : Char) : Bool :=
  c.isAlphanum || "-;/?:@&=+$,_.!~*'()[]%".toList.contains c

/-- The characters that may come right after a name. -/
def mayFollowName (c : Char) : Bool := isBlank c || "?:,]\x7d%@`".toList.contains c

/-- Reads the name of an anchor or an alias, after its first character. -/
def nodeName (c : Cursor) : Except Fault (String × Cursor) :=
  let (name, after) := c.next.span isNameChar
  if name.isEmpty || !after.peek?.all mayFollowName then .error .malformed
  else .ok (String.ofList name, after)

/-! ## Tags -/

/-- The bytes written by percent signs, each with two hexadecimal digits. -/
def percentBytes : List Char → Option (List UInt8 × List Char)
  | '%' :: a :: b :: rest => do
    let n ← hexNumber? [a, b]
    let (more, after) ← percentBytes rest
    return (n.toUInt8 :: more, after)
  | '%' :: _ => none
  | text => some ([], text)

/-- The characters that bytes encode. -/
def decodedBytes? (bytes : List UInt8) : Option (List Char) :=
  (String.fromUTF8? ⟨bytes.toArray⟩).map String.toList

/-- Reads the text of a tag: its characters, with those written by percent signs decoded. -/
def tagText : Nat → Cursor → Except Fault (List Char × Cursor)
  | 0, _ => .error .malformed
  | fuel + 1, c =>
    let (run, c) := c.span fun x => isTagChar x && x != '%'
    if c.sees '%' then
      match percentBytes c.rest with
      | none => .error .malformed
      | some (bytes, rest) =>
        match decodedBytes? bytes with
        | none => .error .malformed
        | some chars =>
          (tagText fuel (c.skip (c.rest.length - rest.length))).map fun (more, c) =>
            (run ++ chars ++ more, c)
    else .ok (run, c)

/-- A tag's text, which is not empty. -/
def tagSuffix (c : Cursor) : Except Fault (String × Cursor) :=
  match tagText c.rounds c with
  | .error e => .error e
  | .ok (text, after) =>
    if after.index == c.index then .error .malformed else .ok (String.ofList text, after)

/-- Reads a handle: an exclamation mark, and a name with a second one, which may be absent before a
space. -/
def tagHandle (c : Cursor) : Except Fault (String × Cursor) :=
  if !c.sees '!' then .error .malformed
  else if c.peekAt? 1 == some ' ' then .ok ("!", c.next)
  else
    let (name, after) := c.next.span isNameChar
    if after.sees '!' then .ok (String.ofList ('!' :: name ++ ['!']), after.next)
    else .error .malformed

/-- Whether an exclamation mark comes before the next space, line break or end. -/
def marksHandle (text : List Char) : Bool :=
  (text.takeWhile fun x => !(x == ' ' || isBreak x)).contains '!'

/-- Reads the body of a tag: spelt out between angle brackets, after a handle, or a lone
exclamation mark. -/
def tagBody (c : Cursor) : Except Fault (Token × Cursor) :=
  if c.peekAt? 1 == some '<' then
    (tagSuffix (c.skip 2)).bind fun (text, c) =>
      if c.sees '>' then .ok (.tag none text, c.next) else .error .malformed
  else if c.blankAt 1 then .ok (.tag none "!", c.next)
  else if marksHandle c.next.rest then
    (tagHandle c).bind fun (handle, c) =>
      (tagSuffix c).map fun (text, c) => (.tag (some handle) text, c)
  else (tagSuffix c.next).map fun (text, c) => (.tag (some "!") text, c)

/-- Reads a tag; a space, a line break or the end follows it. -/
def tagToken (c : Cursor) : Except Fault (Token × Cursor) :=
  (tagBody c).bind fun (token, c) =>
    if c.atSpaceOrEnd then .ok (token, c) else .error .malformed

/-! ## Directives -/

/-- Reads a number of a version, which has no more digits than any integer. -/
def versionNumber (c : Cursor) : Except Fault (Nat × Cursor) :=
  let (digits, after) := c.span Char.isDigit
  if digits.isEmpty then .error .malformed
  else if digitLimit < digits.length then .error .badNumeral
  else .ok (digits.foldl (fun n d => n * 10 + (d.toNat - '0'.toNat)) 0, after)

/-- Reads a version: two numbers around a point. -/
def versionDirective (c : Cursor) : Except Fault (Token × Cursor) :=
  (versionNumber c.skipSpaces).bind fun (major, c) =>
    if !c.sees '.' then .error .malformed
    else (versionNumber c.next).bind fun (_, c) =>
      if c.atSpaceOrEnd then .ok (.version major, c) else .error .malformed

/-- Reads what a handle stands for. -/
def handleDirective (c : Cursor) : Except Fault (Token × Cursor) :=
  (tagHandle c.skipSpaces).bind fun (handle, c) =>
    if !c.sees ' ' then .error .malformed
    else (tagSuffix c.skipSpaces).bind fun (start, c) =>
      if c.atSpaceOrEnd then .ok (.tagHandle handle start, c) else .error .malformed

/-- Reads a directive to the end of its line. -/
def directiveToken (c : Cursor) : Except Fault (Token × Cursor) :=
  let (name, after) := c.next.span isNameChar
  if name.isEmpty || !after.atSpaceOrEnd then .error .malformed
  else
    let body := match String.ofList name with
      | "YAML" => versionDirective after
      | "TAG" => handleDirective after
      | _ => .ok (.otherDirective, after.skipLine)
    body.bind fun (token, c) =>
      let c := c.skipSpaces
      let c := if c.sees '#' then c.skipLine else c
      if c.atLineEnd then .ok (token, (c.break?.map (·.2)).getD c) else .error .malformed

end TypeCatalog.Yaml
