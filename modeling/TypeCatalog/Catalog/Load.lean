import TypeCatalog.Catalog.Basic
import TypeCatalog.Catalog.Defect
import TypeCatalog.Value.Printed

/-!
# Catalog/Load — catalogs from documents

`Catalog.ofDocument` reads the entries of a document under the key `types`. Every part is read where
it stands and in a fixed order, so the defect that is reported is the first one: of an entry, its
name before its kind and what belongs to that kind; of a type expression, its kind before its parts;
of a member, its name, then its type, then whether it may be left out.

What belongs to a kind is looked up by its key, and the recursion goes down the document itself: a
search through the entries of an object (`expressionAt`, `expressionsAt`) ends in the entry that it
reads.
-/

namespace TypeCatalog

/-- A part that is read, or the reason why not. -/
abbrev Loaded (α : Type) := Except LoadError α

namespace Loaded

/-- Refuses a part. -/
def refuse {α : Type} (d : Defect) : Loaded α := .error (.defect d)

/-! ## Simple parts -/

/-- A name: a string that is not empty. -/
def name (w : Place) : Option Value → Loaded String
  | some (.string s) => if s = "" then refuse (.notName w) else .ok s
  | _ => refuse (.notName w)

/-- The name under a key. -/
def nameAt (w : Place) (key : String) (entries : List (Value × Value)) : Loaded String :=
  name (w.key key) (Value.lookup key entries)

/-- Whether a member may be left out; by default it may not. -/
def nullable (w : Place) : Option Value → Loaded Bool
  | none => .ok false
  | some (.bool b) => .ok b
  | some _ => refuse (.notBoolean w)

/-- The text of an integer. -/
def integerText (n : Int) : Loaded String :=
  match Number.integerText? n with
  | some t => .ok t
  | none => .error (.source .oversizedInteger)

/-- A representation: a string, or a number or a truth value in its usual spelling. -/
def representation (w : Place) : Value → Loaded String
  | .bool b => .ok (if b then "true" else "false")
  | .int n => integerText n
  | .float x => .ok (Number.DecimalStyle.plain.text x)
  | .string s => .ok s
  | _ => refuse (.notScalar w)

/-- Reads the items of a list, each at its place. -/
def items {α : Type} (w : Place) (read : Place → Value → Loaded α) : Nat → List Value →
    Loaded (List α)
  | _, [] => .ok []
  | i, v :: rest => do
    let a ← read (w.index i) v
    let others ← items w read (i + 1) rest
    return a :: others

/-- Reads a list. -/
def list {α : Type} (w : Place) (read : Place → Value → Loaded α) : Value → Loaded (List α)
  | .list vs => items w read 0 vs
  | _ => refuse (.notList w)

/-- Reads the list under a key; an absent one is empty. -/
def listAt {α : Type} (w : Place) (key : String) (read : Place → Value → Loaded α)
    (entries : List (Value × Value)) : Loaded (List α) :=
  match Value.lookup key entries with
  | none => .ok []
  | some v => list (w.key key) read v

/-- The text of a kind that is not known, for the message that refuses it. -/
def kindText (kind : Option Value) : Loaded String :=
  match (kind.getD .null).printed? with
  | some t => .ok t
  | none => .error (.source .oversizedInteger)

/-- What a kind's word stands for. -/
def kindOf {α : Type} (words : List (String × α)) : Option Value → Option α
  | some (.string s) => words.lookup s
  | _ => none

/-! ## Type expressions -/

/-- The kinds of type expressions. -/
inductive ExprKind where
  | array
  | dictionary
  | singleKey
  | union
  | implementation
  | reference
  deriving DecidableEq, Repr

/-- Their words. -/
def exprKinds : List (String × ExprKind) :=
  [("array_of", .array), ("dictionary", .dictionary), ("single_key_dictionary", .singleKey),
   ("union_of", .union), ("implements", .implementation), ("reference", .reference)]

mutual
/-- Reads a type expression; a string refers to the type of that name. -/
def expression (w : Place) : Value → Loaded TypeExpr
  | .string s => .ok (.reference s [])
  | .object entries => do
    let kind := Value.lookup "kind" entries
    match kindOf exprKinds kind with
    | some .array => return .array (← expressionAt w "of" entries)
    | some .dictionary =>
      let key ← expressionAt w "key" entries
      let value ← expressionAt w "value" entries
      return .dictionary key value
    | some .singleKey => return .singleKey (← expressionAt w "value" entries)
    | some .union => return .union (← expressionsAt w "items" false entries)
    | some .implementation =>
      let name ← nameAt w "type" entries
      return .implementation name (← expressionsAt w "closedGenerics" true entries)
    | some .reference =>
      let name ← nameAt w "name" entries
      return .reference name (← expressionsAt w "closedGenerics" true entries)
    | none => refuse (.unknownExpressionKind w (← kindText kind))
  | _ => refuse (.notObject w)

/-- Reads the type expression under a key. -/
def expressionAt (w : Place) (key : String) : List (Value × Value) → Loaded TypeExpr
  | [] => refuse (.notObject (w.key key))
  | (k, v) :: rest => if k.isString key then expression (w.key key) v else expressionAt w key rest

/-- Reads the type expressions under a key, which may be absent if they are optional. -/
def expressionsAt (w : Place) (key : String) (optional : Bool) :
    List (Value × Value) → Loaded (List TypeExpr)
  | [] => if optional then .ok [] else refuse (.notList (w.key key))
  | (k, v) :: rest =>
    if k.isString key then expressionList (w.key key) v else expressionsAt w key optional rest

/-- Reads a list of type expressions. -/
def expressionList (w : Place) : Value → Loaded (List TypeExpr)
  | .list vs => expressions w 0 vs
  | _ => refuse (.notList w)

/-- Reads type expressions from a position on. -/
def expressions (w : Place) (i : Nat) : List Value → Loaded (List TypeExpr)
  | [] => .ok []
  | v :: rest => do
    let e ← expression (w.index i) v
    let others ← expressions w (i + 1) rest
    return e :: others
end

theorem expressionAt_eq (w : Place) (key : String) (entries : List (Value × Value)) :
    expressionAt w key entries =
      (Value.lookup key entries).elim (refuse (.notObject (w.key key)))
        (expression (w.key key)) := by
  induction entries with
  | nil => rfl
  | cons entry rest ih =>
    rw [expressionAt, Value.lookup, ih]
    split <;> rfl

theorem expressions_eq_items (w : Place) (i : Nat) (vs : List Value) :
    expressions w i vs = items w expression i vs := by
  induction vs generalizing i with
  | nil => rfl
  | cons v rest ih => rw [expressions, items, ih]

theorem expressionList_eq_list (w : Place) (v : Value) :
    expressionList w v = list w expression v := by
  cases v with
  | list vs => exact expressions_eq_items w 0 vs
  | _ => rfl

theorem expressionsAt_eq (w : Place) (key : String) (optional : Bool)
    (entries : List (Value × Value)) :
    expressionsAt w key optional entries =
      (Value.lookup key entries).elim (if optional then .ok [] else refuse (.notList (w.key key)))
        (list (w.key key) expression) := by
  induction entries with
  | nil => rfl
  | cons entry rest ih =>
    rw [expressionsAt, Value.lookup, ih, expressionList_eq_list]
    split <;> rfl

/-! ## Members -/

/-- Reads a value unless it is absent or null. -/
def optional {α : Type} (read : Value → Loaded α) : Option Value → Loaded (Option α)
  | none => .ok none
  | some .null => .ok none
  | some v => (read v).map some

/-- Reads a member of an interface or of a request. -/
def property (w : Place) : Value → Loaded Property
  | .object entries => do
    let name ← nameAt w "name" entries
    let type ← optional (expression (w.key "type")) (Value.lookup "type" entries)
    let nullable ← nullable (w.key "nullable") (Value.lookup "nullable" entries)
    return { name, type, nullable }
  | _ => refuse (.notObject w)

/-- Reads the members of a group of a request, which may be absent. -/
def group (w : Place) (key : String) (entries : List (Value × Value)) :
    Loaded (Option (List Property)) :=
  optional (list (w.key key) property) (Value.lookup key entries)

/-- Reads a body: a list of members, or else a type. -/
def body (w : Place) : Value → Loaded Body
  | .list vs => (items w property 0 vs).map .properties
  | v => (expression w v).map .type

/-- Reads a member of an enumeration, which by default is represented by its name. -/
def member (w : Place) : Value → Loaded Member
  | .object entries => do
    let name ← nameAt w "name" entries
    let representation ← match Value.lookup "stringRepresentation" entries with
      | none => pure name
      | some v => representation (w.key "stringRepresentation") v
    return { name, representation }
  | _ => refuse (.notObject w)

theorem member_object (w : Place) (entries : List (Value × Value)) :
    member w (.object entries) = nameAt w "name" entries >>= fun name =>
      ((Value.lookup "stringRepresentation" entries).elim (.ok name)
        (representation (w.key "stringRepresentation"))).map (Member.mk name) := by
  rw [member]
  cases Value.lookup "stringRepresentation" entries <;> rfl

/-! ## Definitions -/

/-- The kinds of definitions. -/
inductive DefinitionKind where
  | stringAlias
  | numberAlias
  | unionAlias
  | enumeration
  | interface
  | request
  deriving DecidableEq, Repr

/-- Their words. -/
def definitionKinds : List (String × DefinitionKind) :=
  [("string_alias", .stringAlias), ("number_alias", .numberAlias), ("union_alias", .unionAlias),
   ("enum", .enumeration), ("interface", .interface), ("request", .request)]

/-- Reads what an interface and a request have before their members. -/
def header (w : Place) (name : String) (entries : List (Value × Value)) : Loaded Header := do
  let openGenerics ← listAt w "openGenerics" (fun w v => Loaded.name w (some v)) entries
  let ancestors ← expressionsAt w "inherits" true entries
  return { name, openGenerics, ancestors }

/-- Reads an entry of a catalog. -/
def definition (w : Place) : Value → Loaded Definition
  | .object entries => do
    let kind := Value.lookup "kind" entries
    let name ← nameAt w "name" entries
    match kindOf definitionKinds kind with
    | some .stringAlias => return .stringAlias name
    | some .numberAlias => return .numberAlias name
    | some .unionAlias => return .unionAlias name (← expressionAt w "wraps" entries)
    | some .enumeration => return .enumeration name (← listAt w "members" member entries)
    | some .interface =>
      let header ← header w name entries
      return .interface header (← listAt w "properties" property entries)
    | some .request =>
      let header ← header w name entries
      let path ← group w "path" entries
      let query ← group w "queryParameters" entries
      let body ← optional (body (w.key "body")) (Value.lookup "body" entries)
      return .request header path query body
    | none => refuse (.unknownDefinitionKind w (← kindText kind))
  | _ => refuse (.notObject w)

end Loaded

/-- **Reads the catalog of a document**, which is the object of these entries. -/
def Catalog.ofDocument (entries : List (Value × Value)) : Loaded Catalog :=
  match Value.lookup "types" entries with
  | some (.list vs) => Loaded.items {} Loaded.definition 0 vs
  | _ => Loaded.refuse .missingTypes

end TypeCatalog
