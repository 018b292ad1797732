import TypeCatalog.Yaml.Fault

/-!
# Yaml/Token — the pieces of YAML text

A text is a sequence of tokens. Indentation shows as brackets of its own (`blockSequence`,
`blockMapping`, `blockEnd`), so that what reads tokens need not count columns. The list of tokens
of a text always ends: with `streamEnd`, or with the `fault` that stopped the reading.
-/

namespace TypeCatalog.Yaml

/-- A piece of YAML text. -/
inductive Token where
  /-- The version of the format that the text says it is in. -/
  | version (major : Nat)
  /-- A handle that stands for the start of tags. -/
  | tagHandle (handle start : String)
  /-- A directive that says nothing here. -/
  | otherDirective
  | documentStart
  | documentEnd
  | blockSequence
  | blockMapping
  | blockEnd
  | flowSequence
  | flowSequenceEnd
  | flowMapping
  | flowMappingEnd
  /-- The dash before an item. -/
  | blockEntry
  /-- The comma between items. -/
  | flowEntry
  | key
  | value
  | alias (name : String)
  | anchor (name : String)
  /-- A tag: after a handle, or spelt out. -/
  | tag (handle : Option String) (suffix : String)
  /-- A scalar, which is plain or written in quotes or as a block. -/
  | scalar (text : String) (plain : Bool)
  | streamEnd
  /-- What follows in the text is no token. -/
  | fault (cause : Fault)
  deriving DecidableEq, Repr

end TypeCatalog.Yaml
