import TypeCatalog.Catalog.Place
import TypeCatalog.Yaml.Fault

/-!
# Catalog/Defect — what is wrong with a catalog

A `Defect` is a reason to refuse a catalog; most of them name the place in the document. Some
sources fail in another way, before there is a document to judge: these are `LoadError.source`.
-/

namespace TypeCatalog

/-- A reason to refuse a catalog. -/
inductive Defect where
  /-- The text of the document is in neither format. -/
  | unreadable
  /-- The document is no object. -/
  | documentNotObject
  /-- The document has no list of entries. -/
  | missingTypes
  | notObject (place : Place)
  | notList (place : Place)
  /-- A name is no string, or empty. -/
  | notName (place : Place)
  | notBoolean (place : Place)
  /-- A representation is no string, number or truth value. -/
  | notScalar (place : Place)
  | unknownDefinitionKind (place : Place) (kind : String)
  | unknownExpressionKind (place : Place) (kind : String)
  deriving DecidableEq, Repr

/-- What is wrong, in words. -/
def Defect.message : Defect → String
  | unreadable => "Catalog document is neither valid JSON nor YAML"
  | documentNotObject => "Catalog document must be an object"
  | missingTypes => "Missing or invalid 'types' field in catalog"
  | notObject w => "Expected an object at " ++ w.text
  | notList w => "Expected a list at " ++ w.text
  | notName w => "Expected a non-empty string at " ++ w.text
  | notBoolean w => "Expected a boolean at " ++ w.text
  | notScalar w => "Expected a string, number or boolean at " ++ w.text
  | unknownDefinitionKind w kind => "Unknown definition kind at " ++ w.text ++ ": " ++ kind
  | unknownExpressionKind w kind => "Unknown type expression kind at " ++ w.text ++ ": " ++ kind

/-- The place that a defect names. -/
def Defect.place? : Defect → Option Place
  | unreadable => none
  | documentNotObject => none
  | missingTypes => none
  | notObject w => some w
  | notList w => some w
  | notName w => some w
  | notBoolean w => some w
  | notScalar w => some w
  | unknownDefinitionKind w _ => some w
  | unknownExpressionKind w _ => some w

/-- A defect with another text for the kind that it names. -/
def Defect.mapKind (f : Place → String → String) : Defect → Defect
  | unknownDefinitionKind w kind => unknownDefinitionKind w (f w kind)
  | unknownExpressionKind w kind => unknownExpressionKind w (f w kind)
  | d => d

/-- The text of the place stands in the message. -/
theorem Defect.message_of_place? {d : Defect} {w : Place} (h : d.place? = some w) :
    ∃ front back, d.message = front ++ w.text ++ back := by
  cases d with
  | unreadable => nomatch h
  | documentNotObject => nomatch h
  | missingTypes => nomatch h
  | notObject v =>
    obtain rfl : v = w := Option.some.inj h
    exact ⟨"Expected an object at ", "", String.append_empty.symm⟩
  | notList v =>
    obtain rfl : v = w := Option.some.inj h
    exact ⟨"Expected a list at ", "", String.append_empty.symm⟩
  | notName v =>
    obtain rfl : v = w := Option.some.inj h
    exact ⟨"Expected a non-empty string at ", "", String.append_empty.symm⟩
  | notBoolean v =>
    obtain rfl : v = w := Option.some.inj h
    exact ⟨"Expected a boolean at ", "", String.append_empty.symm⟩
  | notScalar v =>
    obtain rfl : v = w := Option.some.inj h
    exact ⟨"Expected a string, number or boolean at ", "", String.append_empty.symm⟩
  | unknownDefinitionKind v kind =>
    obtain rfl : v = w := Option.some.inj h
    exact ⟨"Unknown definition kind at ", ": " ++ kind, String.append_assoc⟩
  | unknownExpressionKind v kind =>
    obtain rfl : v = w := Option.some.inj h
    exact ⟨"Unknown type expression kind at ", ": " ++ kind, String.append_assoc⟩

/-- Why a source gives no document, or a document no text. -/
inductive SourceError where
  /-- The bytes are not the encoding of a text. -/
  | encoding
  /-- An integer has too many digits to be read or written. -/
  | oversizedInteger
  /-- A scalar has no value of its type. -/
  | scalar (fault : Yaml.Fault)
  /-- A type expression holds itself. -/
  | endless
  deriving DecidableEq, Repr

/-- Why no catalog is loaded. -/
inductive LoadError where
  | defect (d : Defect)
  | source (e : SourceError)
  deriving DecidableEq, Repr

end TypeCatalog
