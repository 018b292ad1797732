/-!
# Yaml/Fault — why YAML text gives no value

Most texts that fail are not YAML, or not YAML of the types that a document may hold: `malformed`.
The other causes lie in single scalars whose type is known and whose text has no value of it.
-/

namespace TypeCatalog.Yaml

/-- Why a text gives no value. -/
inductive Fault where
  /-- The text is not YAML, or its structure has no value. -/
  | malformed
  /-- An escape names a character beyond the last code point. -/
  | codePoint
  /-- A number on the way to a value is beyond what can be worked with: that of a character has more
  than thirty-one bits, or a weight in base sixty is beyond all floating-point numbers. -/
  | overflow
  /-- The text of a number, a day or a moment has no value. -/
  | badNumeral
  /-- The text of a number is empty. -/
  | emptyNumeral
  /-- A truth value is none of the words for one. -/
  | badTruthWord
  /-- The text of a day or a moment has not the form of one. -/
  | badTimeForm
  /-- A day or a moment is no scalar. -/
  | badTimeNode
  /-- The text of a scalar is looked for in a node that leads back to the scalar. -/
  | endless
  deriving DecidableEq, Repr

end TypeCatalog.Yaml
