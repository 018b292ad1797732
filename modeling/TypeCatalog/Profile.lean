/-!
# Profile — the choices of one generation run

A `Profile` says how enumerations are written, what the namespace is called, which names stand for
the two base types that are never declared themselves, and which interfaces count as stable.
-/

namespace TypeCatalog

/-- The choices of one generation run. -/
structure Profile where
  /-- Whether enumerations become unions of literals. -/
  enumAsUnion : Bool := false
  /-- The name of the namespace around all declarations. -/
  namespaceName : String := "T"
  /-- The base type of responses. As the only ancestor it is left out. -/
  responseBase : String := "ResponseBase"
  /-- The base type of responses that are dictionaries. It is written as a record. -/
  dictionaryBase : String := "DictionaryResponseBase"
  /-- The names of the interfaces that are stable. -/
  stableNames : List String :=
    ["IndexRequest", "IndexResponse", "CreateRequest", "CreateResponse", "DeleteRequest",
     "DeleteResponse", "UpdateRequest", "UpdateResponse", "GetRequest", "GetResponse"]
  deriving DecidableEq, Repr

namespace Profile

/-- The names that get no declaration. -/
def skipNames (p : Profile) : List String := [p.responseBase, p.dictionaryBase]

/-- The environment variable that asks for unions in place of enumerations. -/
def unionVariable : String := "ENUM_AS_UNION"

/-- The profile of an environment: the variable counts when it is set and not empty. -/
def ofEnvironment (lookup : String → Option String) (namespaceName : String := "T") : Profile where
  enumAsUnion := (lookup unionVariable).any (· != "")
  namespaceName := namespaceName

end Profile

end TypeCatalog
