import TypeCatalog.Declaration.MemberKey
import TypeCatalog.Declaration.Stability
import TypeCatalog.Declaration.TypeTree
import TypeCatalog.Log.Event

/-!
# Declaration/Block — one definition as a declaration

A declaration is a list of lines (`Definition.lines`), joined by line feeds. Aliases take one line.
An enumeration is a block of its members, or in union mode one line of their literals. An interface
is a comment on its stability, a header, a line for each member that has a type, and a closing
brace; a request has the members of its path, then of its query, then its body.

A member without a type is left out, and a warning says so.
-/

namespace TypeCatalog

open TypeCatalog.Log

/-- The part of the program that writes declarations, as it names itself in the log. -/
def declarationLogger : String := "tsgen.generation.declarations"

/-- The warning about a member that is left out. -/
def untypedEvent (name : String) : Event where
  logger := declarationLogger
  level := .warning
  text := "Skipping property without a type"
  fields := [("property", .string name)]

/-! ## Enumerations -/

/-- A representation as a literal type. The two truth values are written as such. -/
def literal (representation : String) : String :=
  if representation = "true" ∨ representation = "false" then representation
  else "\"" ++ representation ++ "\""

/-- The line of a member in a block. -/
def Member.line (m : Member) : String :=
  "    " ++ memberKey m.name ++ " = \"" ++ m.representation ++ "\","

/-- The lines of an enumeration. -/
def enumerationLines (p : Profile) (name : String) (members : List Member) : List String :=
  if p.enumAsUnion then
    ["  export type " ++ name ++ " = " ++
      " | ".intercalate (members.map fun m => literal m.representation)]
  else ["  export enum " ++ name ++ " \x7b"] ++ members.map Member.line ++ ["  \x7d"]

/-! ## Interfaces and requests -/

/-- Whether the ancestors are left out of a header: there are none, or only the response base. -/
def dropsAncestors (p : Profile) : List TypeExpr → Bool
  | [] => true
  | [e] => e.referencedName? == some p.responseBase
  | _ => false

/-- The clause that names the ancestors. -/
def extendsClause (p : Profile) (ancestors : List TypeExpr) : Except GenerationError String :=
  if dropsAncestors p ancestors then .ok ""
  else (TypeExpr.trees p ancestors).map fun ts =>
    " extends " ++ ", ".intercalate (ts.map TypeTree.text)

/-- The generic parameters, if there are any. -/
def openGenericsText : List String → String
  | [] => ""
  | gs => "<" ++ ", ".intercalate gs ++ ">"

/-- The first line of an interface. -/
def Header.line (p : Profile) (h : Header) : Except GenerationError String :=
  (extendsClause p h.ancestors).map fun clause =>
    "  export interface " ++ h.name ++ openGenericsText h.openGenerics ++ clause ++ " \x7b"

/-- The line of a member with its type. -/
def memberLine (indent : String) (q : Property) (type : String) : String :=
  indent ++ memberKey q.name ++ (if q.nullable then "?" else "") ++ ": " ++ type

/-- The lines of members: one for each that has a type, and a warning for each that has none. -/
def memberLines (p : Profile) (indent : String) :
    List Property → Logged GenerationError (List String)
  | [] => return []
  | q :: rest => do
    match q.type with
    | none =>
      Logged.log (untypedEvent q.name)
      memberLines p indent rest
    | some e =>
      let type ← Logged.ofExcept (e.text p)
      let lines ← memberLines p indent rest
      return memberLine indent q type :: lines

/-- The indentation of members. -/
def memberIndent : String := "    "

/-- The indentation of the members of a body. -/
def bodyIndent : String := "      "

/-- The lines of a group of members that may be absent. -/
def groupLines (p : Profile) : Option (List Property) → Logged GenerationError (List String)
  | none => return []
  | some members => memberLines p memberIndent members

/-- The lines of a body. -/
def bodyLines (p : Profile) : Option Body → Logged GenerationError (List String)
  | none => return []
  | some (.properties members) => do
    let lines ← memberLines p bodyIndent members
    return ["    body?: \x7b"] ++ lines ++ ["    \x7d"]
  | some (.type e) => do
    let type ← Logged.ofExcept (e.text p)
    return ["    body?: " ++ type]

/-- An interface around the lines of its members. -/
def interfaceLines (p : Profile) (h : Header) (members : Logged GenerationError (List String)) :
    Logged GenerationError (List String) := do
  let header ← Logged.ofExcept (h.line p)
  let lines ← members
  return stabilityLines h.name p.stableNames ++ [header] ++ lines ++ ["  \x7d"]

/-- The lines of the members of a request: path, query, body. -/
def requestMembers (p : Profile) (path query : Option (List Property)) (body : Option Body) :
    Logged GenerationError (List String) := do
  let pathLines ← groupLines p path
  let queryLines ← groupLines p query
  let bodyLines ← bodyLines p body
  return pathLines ++ queryLines ++ bodyLines

/-! ## Definitions -/

namespace Definition

/-- The lines of a definition. -/
def lines (p : Profile) : Definition → Logged GenerationError (List String)
  | stringAlias name => return ["  export type " ++ name ++ " = string"]
  | numberAlias name => return ["  export type " ++ name ++ " = number"]
  | unionAlias name wraps => do
    let type ← Logged.ofExcept (wraps.text p)
    return ["  export type " ++ name ++ " = " ++ type]
  | enumeration name members => return enumerationLines p name members
  | interface header properties =>
    interfaceLines p header (memberLines p memberIndent properties)
  | request header path query body =>
    interfaceLines p header (requestMembers p path query body)
  | unknown _ kind => throw (.unknownDefinition kind)

/-- **A definition as a declaration.** -/
def declaration (p : Profile) (d : Definition) : Logged GenerationError String := do
  let lines ← d.lines p
  return "\n".intercalate lines

end Definition

end TypeCatalog
