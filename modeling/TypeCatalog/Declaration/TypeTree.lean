import TypeCatalog.Catalog.Basic
import TypeCatalog.Declaration.Error
import TypeCatalog.Profile

/-!
# Declaration/TypeTree — types as they are written

A type expression is first resolved to a `TypeTree`, which has only the forms of the written
language: names, names with arguments, arrays and unions. Dictionaries become records; an ancestor
that is named as the dictionary base becomes a record too, and any other keeps its arguments only if
it has more than one. `TypeTree.text` then writes a tree.
-/

namespace TypeCatalog

/-- A type of the written language. -/
inductive TypeTree where
  | name (n : String)
  | apply (n : String) (arguments : List TypeTree)
  | array (element : TypeTree)
  | union (items : List TypeTree)
  deriving Repr, Inhabited

/-- What holds of a type if it holds of its parts holds of every type. -/
@[elab_as_elim] theorem TypeTree.induct {motive : TypeTree → Prop}
    (name : ∀ n, motive (.name n))
    (apply : ∀ n arguments, (∀ a ∈ arguments, motive a) → motive (.apply n arguments))
    (array : ∀ element, motive element → motive (.array element))
    (union : ∀ items, (∀ t ∈ items, motive t) → motive (.union items)) (t : TypeTree) : motive t :=
  @TypeTree.rec motive (fun ts => ∀ t ∈ ts, motive t) name apply array union
    (fun _ h => nomatch h) (fun _ _ head tail => List.forall_mem_cons.mpr ⟨head, tail⟩) t

namespace TypeTree

/-- The type of dictionaries. -/
def record (key value : TypeTree) : TypeTree := apply "Record" [key, value]

mutual
/-- The text of a type. -/
def text : TypeTree → String
  | name n => n
  | apply n arguments => n ++ "<" ++ ", ".intercalate (texts arguments) ++ ">"
  | array element => element.text ++ "[]"
  | union items => " | ".intercalate (texts items)

/-- The texts of several types. -/
def texts : List TypeTree → List String
  | [] => []
  | t :: rest => t.text :: texts rest
end

theorem texts_eq_map (ts : List TypeTree) : texts ts = ts.map text := by
  induction ts with
  | nil => rfl
  | cons t rest ih => rw [texts, ih, List.map_cons]

end TypeTree

namespace TypeExpr

mutual
/-- The written type of an expression. Of several values that are no expressions, the first one
that would be written decides. -/
def tree (p : Profile) : TypeExpr → Except GenerationError TypeTree
  | reference n [] => .ok (.name n)
  | reference n (g :: gs) => do return .apply n (← trees p (g :: gs))
  | implementation n generics => do
    if n = p.dictionaryBase then
      return .apply "Record" (← trees p generics)
    else if 1 < generics.length then
      return .apply n (← trees p generics)
    else return .name n
  | array element => do return .array (← element.tree p)
  | dictionary key value => do
    let k ← key.tree p
    let v ← value.tree p
    return .record k v
  | singleKey value => do return .record (.name "string") (← value.tree p)
  | union items => do return .union (← trees p items)
  | unknown kind => .error (.unknownType kind)

/-- The written types of several expressions. -/
def trees (p : Profile) : List TypeExpr → Except GenerationError (List TypeTree)
  | [] => .ok []
  | e :: rest => do
    let t ← e.tree p
    let ts ← trees p rest
    return t :: ts
end

theorem trees_eq_mapM (p : Profile) (es : List TypeExpr) : trees p es = es.mapM (tree p) := by
  induction es with
  | nil => rfl
  | cons e rest ih => rw [trees, ih, List.mapM_cons]

/-- **The text of a type expression.** -/
def text (p : Profile) (e : TypeExpr) : Except GenerationError String :=
  (e.tree p).map TypeTree.text

/-- The name that an expression refers to, if it is a reference. -/
def referencedName? : TypeExpr → Option String
  | reference n _ => some n
  | implementation n _ => some n
  | _ => none

end TypeExpr

end TypeCatalog
