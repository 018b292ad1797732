import TypeCatalog.Proofs.Generation.Written

/-!
# Proofs/Generation/DeclarationTree — declarations before they are written

A definition is first resolved to a `DeclarationTree`, in which all that can fail has been done: its
types are written types, members without a type are gone, and the mode of enumerations is chosen.
`DeclarationTree.lines` then lays it out.

`failure?_tree` says what can fail: a value that is no definition, and the types that a definition
writes.
-/

namespace TypeCatalog

open Failure

/-! ## Trees -/

/-- A member as it is written. -/
structure MemberTree where
  name : String
  optional : Bool
  type : TypeTree

/-- A body as it is written. -/
inductive BodyTree where
  | members (members : List MemberTree)
  | type (type : TypeTree)

/-- An interface or a request as it is written. -/
structure InterfaceTree where
  stability : Option Stability
  name : String
  openGenerics : List String
  ancestors : List TypeTree
  members : List MemberTree
  body : Option BodyTree

/-- A declaration as it is written. -/
inductive DeclarationTree where
  | typeAlias (name : String) (type : TypeTree)
  /-- An enumeration as the union of its literals. -/
  | literals (name : String) (representations : List String)
  /-- An enumeration as a block of its members. -/
  | enumeration (name : String) (members : List Member)
  | interface (tree : InterfaceTree)

/-! ## Layout -/

/-- The line of a member. -/
def MemberTree.line (indent : String) (m : MemberTree) : String :=
  indent ++ memberKey m.name ++ (if m.optional then "?" else "") ++ ": " ++ m.type.text

/-- The lines of a body. -/
def BodyTree.lines : BodyTree → List String
  | members ms => ["    body?: \x7b"] ++ ms.map (MemberTree.line bodyIndent) ++ ["    \x7d"]
  | type t => ["    body?: " ++ t.text]

/-- The clause that names the ancestors, if there are any. -/
def heritage : List TypeTree → String
  | [] => ""
  | ts => " extends " ++ ", ".intercalate (ts.map TypeTree.text)

namespace InterfaceTree

/-- The line with the name, the generic parameters and the ancestors. -/
def header (i : InterfaceTree) : String :=
  "  export interface " ++ i.name ++ openGenericsText i.openGenerics ++ heritage i.ancestors ++
    " \x7b"

/-- The lines of an interface. -/
def lines (i : InterfaceTree) : List String :=
  i.stability.elim [] Stability.lines ++ [i.header] ++
    (i.members.map (MemberTree.line memberIndent) ++ i.body.elim [] BodyTree.lines) ++ ["  \x7d"]

end InterfaceTree

namespace DeclarationTree

/-- The lines of a declaration. -/
def lines : DeclarationTree → List String
  | typeAlias name type => ["  export type " ++ name ++ " = " ++ type.text]
  | literals name representations =>
    ["  export type " ++ name ++ " = " ++ " | ".intercalate (representations.map literal)]
  | enumeration name members =>
    ["  export enum " ++ name ++ " \x7b"] ++ members.map Member.line ++ ["  \x7d"]
  | interface tree => tree.lines

/-- The text of a declaration. -/
def text (t : DeclarationTree) : String := "\n".intercalate t.lines

theorem map_text (ts : List DeclarationTree) :
    ts.map text = (ts.map lines).map ("\n".intercalate ·) :=
  (List.map_map ..).symm

end DeclarationTree

/-! ## Resolving definitions -/

/-- The members that are written: those that have a type. -/
def memberTrees (p : Profile) : List Property → Except GenerationError (List MemberTree)
  | [] => .ok []
  | q :: rest =>
    match q.type with
    | none => memberTrees p rest
    | some e => (both (e.tree p) (memberTrees p rest)).map
        fun (t, ms) => ⟨q.name, q.nullable, t⟩ :: ms

theorem memberTrees_untyped (p : Profile) {q : Property} (h : q.type = none)
    (rest : List Property) : memberTrees p (q :: rest) = memberTrees p rest := by
  rw [memberTrees, h]

theorem memberTrees_typed (p : Profile) {q : Property} {e : TypeExpr} (h : q.type = some e)
    (rest : List Property) : memberTrees p (q :: rest) =
      (both (e.tree p) (memberTrees p rest)).map
        fun (t, ms) => ⟨q.name, q.nullable, t⟩ :: ms := by
  rw [memberTrees, h]

/-- A body as it is written. -/
def bodyTree (p : Profile) : Option Body → Except GenerationError (Option BodyTree)
  | none => .ok none
  | some (.properties members) => (memberTrees p members).map fun ms => some (.members ms)
  | some (.type e) => (e.tree p).map fun t => some (.type t)

/-- An interface around its members and its body. -/
def interfaceTree (p : Profile) (h : Header)
    (inside : Except GenerationError (List MemberTree × Option BodyTree)) :
    Except GenerationError DeclarationTree :=
  (both (TypeExpr.trees p (writtenAncestors p h.ancestors)) inside).map
    fun (ancestors, members, body) => .interface
      ⟨Stability.ofName? h.name p.stableNames, h.name, h.openGenerics, ancestors, members, body⟩

/-- The members of a request, and its body. -/
def requestTrees (p : Profile) (path query : Option (List Property)) (body : Option Body) :
    Except GenerationError (List MemberTree × Option BodyTree) :=
  both (memberTrees p (path.getD [] ++ query.getD [])) (bodyTree p body)

/-- A definition as it is written. -/
def Definition.tree (p : Profile) : Definition → Except GenerationError DeclarationTree
  | stringAlias name => .ok (.typeAlias name (.name "string"))
  | numberAlias name => .ok (.typeAlias name (.name "number"))
  | unionAlias name wraps => (wraps.tree p).map (.typeAlias name)
  | enumeration name members =>
    .ok (if p.enumAsUnion then .literals name (members.map (·.representation))
      else .enumeration name members)
  | interface header properties =>
    interfaceTree p header ((memberTrees p properties).map fun ms => (ms, none))
  | request header path query body => interfaceTree p header (requestTrees p path query body)
  | unknown _ kind => .error (.unknownDefinition kind)

/-! ## What can fail -/

variable {p : Profile}

theorem failure?_memberTrees (qs : List Property) :
    failure? (memberTrees p qs) = failure? (TypeExpr.trees p (memberTypes qs)) := by
  induction qs with
  | nil => rfl
  | cons q qs ih =>
    rw [memberTypes, List.filterMap_cons]
    cases htype : q.type with
    | none => exact (congrArg _ (memberTrees_untyped p htype qs)).trans ih
    | some e =>
      rw [memberTrees_typed p htype, failure?_map, failure?_both, failure?_trees_cons, ih,
        memberTypes]

theorem failure?_bodyTree (body : Option Body) :
    failure? (bodyTree p body) = failure? (TypeExpr.trees p (bodyTypes body)) := by
  cases body with
  | none => rfl
  | some b =>
    cases b with
    | properties members => exact (failure?_map _ _).trans (failure?_memberTrees members)
    | type e => exact (failure?_map _ _).trans (failure?_trees_singleton e).symm

theorem failure?_interfaceTree (h : Header)
    (inside : Except GenerationError (List MemberTree × Option BodyTree)) :
    failure? (interfaceTree p h inside) =
      (failure? (TypeExpr.trees p (writtenAncestors p h.ancestors))).or (failure? inside) := by
  rw [interfaceTree, failure?_map, failure?_both]

/-- **A definition fails as the types that it writes do.** -/
theorem Definition.failure?_tree {d : Definition} (h : ∀ name kind, d ≠ .unknown name kind) :
    failure? (d.tree p) = failure? (TypeExpr.trees p (d.writtenTypes p)) := by
  cases d with
  | stringAlias name => rfl
  | numberAlias name => rfl
  | unionAlias name wraps => exact (failure?_map _ _).trans (failure?_trees_singleton wraps).symm
  | enumeration name members => rfl
  | interface header properties =>
    rw [tree, writtenTypes, failure?_interfaceTree, failure?_map, failure?_memberTrees,
      failure?_trees_append]
  | request header path query body =>
    rw [tree, writtenTypes, failure?_interfaceTree, requestTrees, failure?_both,
      failure?_memberTrees, failure?_bodyTree, memberTypes, List.filterMap_append,
      failure?_trees_append, failure?_trees_append, failure?_trees_append, failure?_trees_append,
      Option.or_assoc, Option.or_assoc, Option.or_assoc]
    rfl
  | unknown name kind => exact absurd rfl (h name kind)

end TypeCatalog
