/-!
# Declaration/Error — why nothing is generated

Generation fails only on values that no catalog read from a document holds.
-/

namespace TypeCatalog

/-- Why nothing is generated. -/
inductive GenerationError where
  /-- An entry of the catalog has no name. -/
  | namelessEntry
  /-- An entry of the catalog is no definition. -/
  | unknownDefinition (kind : String)
  /-- A type that has to be written is no type expression. -/
  | unknownType (kind : String)
  deriving DecidableEq, Repr

/-- What is wrong, in words. -/
def GenerationError.message : GenerationError → String
  | namelessEntry => "Catalog entry without a name"
  | unknownDefinition kind => "Unsupported type definition: " ++ kind
  | unknownType kind => "Unsupported type expression: " ++ kind

end TypeCatalog
