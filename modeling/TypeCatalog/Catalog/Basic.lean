/-!
# Catalog/Basic — the types of an interface, as a catalog defines them

A catalog is an ordered list of `Definition`s. They refer to types by `TypeExpr`, a tree over named
references. A catalog may also be put together by hand, out of values that are neither; such a value
keeps only the word for its kind (`TypeExpr.unknown`, `Definition.unknown`), which is all that a
refusal of it says.
-/

namespace TypeCatalog

/-- How a definition refers to types. -/
inductive TypeExpr where
  /-- A named type, with what its open generics are bound to. -/
  | reference (name : String) (generics : List TypeExpr)
  /-- A named type as an ancestor, with what its open generics are bound to. -/
  | implementation (name : String) (generics : List TypeExpr)
  | array (element : TypeExpr)
  | dictionary (key value : TypeExpr)
  /-- A dictionary that holds a single string key. -/
  | singleKey (value : TypeExpr)
  | union (items : List TypeExpr)
  /-- A value that is no type expression. -/
  | unknown (kind : String)
  deriving Repr, Inhabited

/-- What holds of an expression if it holds of its parts holds of every expression. -/
@[elab_as_elim] theorem TypeExpr.induct {motive : TypeExpr → Prop}
    (reference : ∀ name generics, (∀ g ∈ generics, motive g) → motive (.reference name generics))
    (implementation : ∀ name generics, (∀ g ∈ generics, motive g) →
      motive (.implementation name generics))
    (array : ∀ element, motive element → motive (.array element))
    (dictionary : ∀ key value, motive key → motive value → motive (.dictionary key value))
    (singleKey : ∀ value, motive value → motive (.singleKey value))
    (union : ∀ items, (∀ e ∈ items, motive e) → motive (.union items))
    (unknown : ∀ kind, motive (.unknown kind)) (e : TypeExpr) : motive e :=
  @TypeExpr.rec motive (fun es => ∀ e ∈ es, motive e) reference implementation array dictionary
    singleKey union unknown (fun _ h => nomatch h)
    (fun _ _ head tail => List.forall_mem_cons.mpr ⟨head, tail⟩) e

/-- A member of an interface or of a group of a request. -/
structure Property where
  name : String
  /-- The type, if it is known. -/
  type : Option TypeExpr := none
  /-- Whether the member may be left out. -/
  nullable : Bool := false
  deriving Repr, Inhabited

/-- A member of an enumeration. -/
structure Member where
  name : String
  /-- What stands for the member on the wire. -/
  representation : String
  deriving DecidableEq, Repr, Inhabited

/-- What an interface and a request have before their members. -/
structure Header where
  name : String
  /-- The names of the generic parameters. -/
  openGenerics : List String := []
  ancestors : List TypeExpr := []
  deriving Repr, Inhabited

/-- The body of a request: members of its own, or a type. -/
inductive Body where
  | properties (members : List Property)
  | type (expr : TypeExpr)
  deriving Repr, Inhabited

/-- An entry of a catalog. -/
inductive Definition where
  | stringAlias (name : String)
  | numberAlias (name : String)
  | unionAlias (name : String) (wraps : TypeExpr)
  | enumeration (name : String) (members : List Member)
  | interface (header : Header) (properties : List Property)
  /-- The parameters of an operation: in its path, in its query and in its body. -/
  | request (header : Header) (path query : Option (List Property)) (body : Option Body)
  /-- A value that is no definition; some of them have a name. -/
  | unknown (name : Option String) (kind : String)
  deriving Repr, Inhabited

/-- The name of an entry, if it has one. -/
def Definition.name? : Definition → Option String
  | stringAlias name => some name
  | numberAlias name => some name
  | unionAlias name _ => some name
  | enumeration name _ => some name
  | interface header _ => some header.name
  | request header _ _ _ => some header.name
  | unknown name _ => name

/-- All that is to be generated, in the order of the output. -/
abbrev Catalog := List Definition

end TypeCatalog
