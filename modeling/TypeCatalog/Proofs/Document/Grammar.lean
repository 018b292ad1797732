import Mathlib.Data.List.Forall2
import TypeCatalog.Catalog.Basic
import TypeCatalog.Number.Numeral
import TypeCatalog.Number.Shortest
import TypeCatalog.Value.Basic

/-!
# Proofs/Document/Grammar — which documents are catalogs, and of what

`IsCatalog entries c` says that the object of these entries is a document of the catalog `c`.  The
relations below it say the same of the parts, one constructor for each form:

    types       a list of definitions
    definition  name, kind, and what belongs to the kind
    expression  a string, or an object of one of six kinds
    members     name, type?, nullable?     /     name, stringRepresentation?

Three things can be said of a key that is not there.  Most lists default to the empty one
(`ListUnder`), so `null` is no list there; a type, a group and a body may be absent or `null` alike
(`OrNone`); all else is required.
-/

namespace TypeCatalog.Document

open Value Number

/-! ## Names, lists and what may be left out -/

/-- A name: a string that is not empty. -/
def IsName (v : Option Value) (s : String) : Prop := v = some (.string s) ∧ s ≠ ""

/-- The word of an object's kind. -/
def HasKind (entries : List (Value × Value)) (word : String) : Prop :=
  lookup "kind" entries = some (.string word)

/-- A list, item by item. -/
def IsList {α : Type} (is : Value → α → Prop) (v : Value) (as : List α) : Prop :=
  ∃ vs, v = .list vs ∧ List.Forall₂ is vs as

/-- What stands under a key, or else the empty list. -/
def listUnder (key : String) (entries : List (Value × Value)) : Value :=
  (lookup key entries).getD (.list [])

/-- A list with an item stands under its key. -/
theorem lookup_of_listUnder {key : String} {es : List (Value × Value)} {vs : List Value} {v : Value}
    (h : listUnder key es = .list vs) (hv : v ∈ vs) : lookup key es = some (.list vs) := by
  rw [listUnder] at h
  cases hlookup : lookup key es with
  | none =>
    rw [hlookup] at h
    obtain rfl := Value.list.inj h
    cases hv
  | some u =>
    rw [hlookup] at h
    exact congrArg some h

/-- A part that may be absent or null. -/
inductive OrNone {α : Type} (is : Value → α → Prop) : Option Value → Option α → Prop
  | absent : OrNone is none none
  | null : OrNone is (some .null) none
  | present {v : Value} {a : α} : v ≠ .null → is v a → OrNone is (some v) (some a)

/-! ## Type expressions -/

/-- A value is an expression. -/
inductive IsExpr : Value → TypeExpr → Prop
  | bare (s : String) : IsExpr (.string s) (.reference s [])
  | array {es : List (Value × Value)} {v : Value} {e : TypeExpr} : HasKind es "array_of" →
      lookup "of" es = some v → IsExpr v e → IsExpr (.object es) (.array e)
  | dictionary {es : List (Value × Value)} {u v : Value} {k e : TypeExpr} :
      HasKind es "dictionary" → lookup "key" es = some u → IsExpr u k →
      lookup "value" es = some v → IsExpr v e → IsExpr (.object es) (.dictionary k e)
  | singleKey {es : List (Value × Value)} {v : Value} {e : TypeExpr} :
      HasKind es "single_key_dictionary" → lookup "value" es = some v → IsExpr v e →
      IsExpr (.object es) (.singleKey e)
  | union {es : List (Value × Value)} {vs : List Value} {items : List TypeExpr} :
      HasKind es "union_of" → lookup "items" es = some (.list vs) → List.Forall₂ IsExpr vs items →
      IsExpr (.object es) (.union items)
  | implementation {es : List (Value × Value)} {vs : List Value} {name : String}
      {generics : List TypeExpr} : HasKind es "implements" → IsName (lookup "type" es) name →
      listUnder "closedGenerics" es = .list vs → List.Forall₂ IsExpr vs generics →
      IsExpr (.object es) (.implementation name generics)
  | reference {es : List (Value × Value)} {vs : List Value} {name : String}
      {generics : List TypeExpr} : HasKind es "reference" → IsName (lookup "name" es) name →
      listUnder "closedGenerics" es = .list vs → List.Forall₂ IsExpr vs generics →
      IsExpr (.object es) (.reference name generics)

/-! ## Members -/

/-- A value is a member of an interface or of a request. -/
def IsProperty (v : Value) (q : Property) : Prop :=
  ∃ es, v = .object es ∧ IsName (lookup "name" es) q.name ∧
    OrNone IsExpr (lookup "type" es) q.type ∧
    (lookup "nullable" es).getD (.bool false) = .bool q.nullable

/-- A value is a representation: strings stand for themselves, numbers and truth values for their
texts. -/
inductive IsRepresentation : Value → String → Prop
  | string (s : String) : IsRepresentation (.string s) s
  | bool (b : Bool) : IsRepresentation (.bool b) (if b then "true" else "false")
  | int {n : Int} {t : String} : integerText? n = some t → IsRepresentation (.int n) t
  | float (x : Binary64) : IsRepresentation (.float x) (DecimalStyle.plain.text x)

/-- A value is a member of an enumeration, which by default is represented by its name. -/
def IsMember (v : Value) (m : Member) : Prop :=
  ∃ es, v = .object es ∧ IsName (lookup "name" es) m.name ∧
    IsRepresentation ((lookup "stringRepresentation" es).getD (.string m.name)) m.representation

/-- A value is a body: a list of members, or a type. -/
inductive IsBody : Value → Body → Prop
  | properties {v : Value} {qs : List Property} : IsList IsProperty v qs → IsBody v (.properties qs)
  | type {v : Value} {e : TypeExpr} : IsExpr v e → IsBody v (.type e)

/-! ## Definitions -/

/-- Entries give what an interface and a request have before their members. -/
def IsHeader (es : List (Value × Value)) (h : Header) : Prop :=
  IsName (lookup "name" es) h.name ∧
    IsList (fun v => IsName (some v)) (listUnder "openGenerics" es) h.openGenerics ∧
    IsList IsExpr (listUnder "inherits" es) h.ancestors

/-- A value is a definition. -/
inductive IsDefinition : Value → Definition → Prop
  | stringAlias {es : List (Value × Value)} {name : String} : HasKind es "string_alias" →
      IsName (lookup "name" es) name → IsDefinition (.object es) (.stringAlias name)
  | numberAlias {es : List (Value × Value)} {name : String} : HasKind es "number_alias" →
      IsName (lookup "name" es) name → IsDefinition (.object es) (.numberAlias name)
  | unionAlias {es : List (Value × Value)} {name : String} {v : Value} {e : TypeExpr} :
      HasKind es "union_alias" → IsName (lookup "name" es) name → lookup "wraps" es = some v →
      IsExpr v e → IsDefinition (.object es) (.unionAlias name e)
  | enumeration {es : List (Value × Value)} {name : String} {members : List Member} :
      HasKind es "enum" → IsName (lookup "name" es) name →
      IsList IsMember (listUnder "members" es) members →
      IsDefinition (.object es) (.enumeration name members)
  | interface {es : List (Value × Value)} {h : Header} {properties : List Property} :
      HasKind es "interface" → IsHeader es h →
      IsList IsProperty (listUnder "properties" es) properties →
      IsDefinition (.object es) (.interface h properties)
  | request {es : List (Value × Value)} {h : Header} {path query : Option (List Property)}
      {body : Option Body} : HasKind es "request" → IsHeader es h →
      OrNone (IsList IsProperty) (lookup "path" es) path →
      OrNone (IsList IsProperty) (lookup "queryParameters" es) query →
      OrNone IsBody (lookup "body" es) body → IsDefinition (.object es) (.request h path query body)

/-- **A document is a catalog**: it has a list of entries, and these are its definitions, in the
same order. -/
def IsCatalog (entries : List (Value × Value)) (c : Catalog) : Prop :=
  ∃ vs, lookup "types" entries = some (.list vs) ∧ List.Forall₂ IsDefinition vs c

end TypeCatalog.Document
