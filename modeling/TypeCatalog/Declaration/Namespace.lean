import TypeCatalog.Declaration.Block

/-!
# Declaration/Namespace — a catalog as one namespace

`generate` writes the declarations of a catalog in its order, with a blank line between two of them,
inside one namespace that is exported. The base types get no declaration; they are counted as
skipped. While an entry is worked on, its name is bound in the log.
-/

namespace TypeCatalog

open TypeCatalog.Log

/-- The part of the program that walks the catalog, as it names itself in the log. -/
def generatorLogger : String := "tsgen.generator"

/-- The note about a base type. -/
def skippedEvent : Event where
  logger := generatorLogger
  level := .debug
  text := "Skipping internal base type"

/-- What was generated. -/
structure Output where
  code : String
  /-- How many declarations the code holds. -/
  emitted : Nat
  /-- How many entries were base types. -/
  skipped : Nat
  deriving DecidableEq, Repr

/-- The declaration of an entry; none for a base type. -/
def entryDeclaration (p : Profile) (d : Definition) : Logged GenerationError (Option String) :=
  match d.name? with
  | none => throw .namelessEntry
  | some name =>
    Logged.within name do
      if name ∈ p.skipNames then
        Logged.log skippedEvent
        return none
      else
        return some (← d.declaration p)

/-- The declarations of a catalog, none for each base type. -/
def catalogDeclarations (p : Profile) :
    Catalog → Logged GenerationError (List (Option String))
  | [] => return []
  | d :: rest => do
    let declaration ← entryDeclaration p d
    let others ← catalogDeclarations p rest
    return declaration :: others

/-- Declarations inside a namespace. -/
def namespaceText (name : String) (declarations : List String) : String :=
  "\n".intercalate
    ["declare namespace " ++ name ++ " \x7b",
     "\n\n".intercalate declarations,
     "\x7d",
     "",
     "export default " ++ name]

/-- **Generates the declarations of a catalog.** -/
def generate (p : Profile) (c : Catalog) : Logged GenerationError Output := do
  let all ← catalogDeclarations p c
  let declarations := all.filterMap id
  return {
    code := namespaceText p.namespaceName declarations
    emitted := declarations.length
    skipped := all.length - declarations.length }

end TypeCatalog
