import TypeCatalog.Catalog.Load

/-!
# Proofs/Document/ReadingOrder — the parts of a document in the order of their reading

A document is checked part by part.  `parts` lists these parts without reading any of them: an
object comes before its fields, a list before its items, and the fields of an object are those of
its role, in a table (`Role.fields`).  A part is judged alone (`Part.fault?`).

**A reading fails with the first fault among its parts, and with none it succeeds**: that is
`Follows`, which holds of each reader of `Catalog/Load` and of the parts of its role.
-/

namespace TypeCatalog.Document

open Value Loaded

/-! ## Roles

The kind of an object is a field as others are, but its fault is told of the object. -/

/-- What a part of a document is read as. -/
inductive Role where
  | name
  | truth
  | representation
  | expression
  | property
  | member
  | definition
  | body
  /-- A list, and what its items are read as. -/
  | list (item : Role)
  /-- What may also be null. -/
  | orNull (role : Role)
  | expressionKind
  | definitionKind
  deriving DecidableEq, Repr

/-- A field of an object. -/
structure Field where
  key : String
  /-- Whether its absence is checked as a value would be. -/
  required : Bool
  role : Role
  deriving DecidableEq, Repr

/-- The fields of a kind of expressions. -/
def exprFields : ExprKind → List Field
  | .array => [⟨"of", true, .expression⟩]
  | .dictionary => [⟨"key", true, .expression⟩, ⟨"value", true, .expression⟩]
  | .singleKey => [⟨"value", true, .expression⟩]
  | .union => [⟨"items", true, .list .expression⟩]
  | .implementation => [⟨"type", true, .name⟩, ⟨"closedGenerics", false, .list .expression⟩]
  | .reference => [⟨"name", true, .name⟩, ⟨"closedGenerics", false, .list .expression⟩]

/-- The fields of a kind of definitions, after the name. -/
def definitionFields : DefinitionKind → List Field
  | .stringAlias => []
  | .numberAlias => []
  | .unionAlias => [⟨"wraps", true, .expression⟩]
  | .enumeration => [⟨"members", false, .list .member⟩]
  | .interface => [⟨"openGenerics", false, .list .name⟩, ⟨"inherits", false, .list .expression⟩,
      ⟨"properties", false, .list .property⟩]
  | .request => [⟨"openGenerics", false, .list .name⟩, ⟨"inherits", false, .list .expression⟩,
      ⟨"path", false, .orNull (.list .property)⟩,
      ⟨"queryParameters", false, .orNull (.list .property)⟩, ⟨"body", false, .orNull .body⟩]

/-- The fields after a kind; an unknown kind has none. -/
def kindFields {α : Type} (words : List (String × α)) (fields : α → List Field)
    (entries : List (Value × Value)) : List Field :=
  ((kindOf words (lookup "kind" entries)).map fields).getD []

theorem kindFields_of_none {α : Type} {words : List (String × α)} {fields : α → List Field}
    {entries : List (Value × Value)} (h : kindOf words (lookup "kind" entries) = none) :
    kindFields words fields entries = [] := by
  rw [kindFields, h, Option.map_none, Option.getD_none]

theorem kindFields_of_some {α : Type} {words : List (String × α)} {fields : α → List Field}
    {entries : List (Value × Value)} {k : α} (h : kindOf words (lookup "kind" entries) = some k) :
    kindFields words fields entries = fields k := by
  rw [kindFields, h, Option.map_some, Option.getD_some]

namespace Role

/-- The fields of an object of a role, in the order of their reading. -/
def fields (entries : List (Value × Value)) : Role → List Field
  | expression => ⟨"kind", true, expressionKind⟩ :: kindFields exprKinds exprFields entries
  | body => ⟨"kind", true, expressionKind⟩ :: kindFields exprKinds exprFields entries
  | property => [⟨"name", true, name⟩, ⟨"type", false, orNull expression⟩,
      ⟨"nullable", false, truth⟩]
  | member => [⟨"name", true, name⟩, ⟨"stringRepresentation", false, representation⟩]
  | definition => ⟨"name", true, name⟩ :: ⟨"kind", true, definitionKind⟩ ::
      kindFields definitionKinds definitionFields entries
  | orNull r => r.fields entries
  | _ => []

/-- What the items of a list of a role are read as. -/
def item? : Role → Option Role
  | list r => some r
  | body => some property
  | orNull r => r.item?
  | _ => none

/-- Whether a value, apart from its fields and items, is of a role. -/
def accepts : Role → Option Value → Bool
  | name, some (.string s) => s != ""
  | truth, some (.bool _) => true
  | representation, some (.bool _) => true
  | representation, some (.int n) => (Number.integerText? n).isSome
  | representation, some (.float _) => true
  | representation, some (.string _) => true
  | expression, some (.string _) => true
  | expression, some (.object _) => true
  | property, some (.object _) => true
  | member, some (.object _) => true
  | definition, some (.object _) => true
  | body, some (.string _) => true
  | body, some (.object _) => true
  | body, some (.list _) => true
  | list _, some (.list _) => true
  | orNull _, some .null => true
  | orNull r, v => r.accepts v
  | expressionKind, v => (kindOf exprKinds v).isSome
  | definitionKind, v => (kindOf definitionKinds v).isSome
  | _, _ => false

/-- What may be null and is refused would be refused without that. -/
theorem accepts_of_orNull {r : Role} {v : Option Value} (h : (orNull r).accepts v = false) :
    r.accepts v = false := by
  cases v with
  | none => exact h
  | some v =>
    cases v with
    | null => nomatch h
    | _ => exact h

/-- What is reported of a kind that is not known, given the defect that names it. -/
def kindRefusal (d : String → Defect) (kind : Option Value) : LoadError :=
  (((kind.getD .null).printed?).map fun t => LoadError.defect (d t)).getD
    (.source .oversizedInteger)

/-- What is reported of a value that is not of a role. -/
def refusal (w : Place) : Role → Option Value → LoadError
  | name, _ => .defect (.notName w)
  | truth, _ => .defect (.notBoolean w)
  | representation, some (.int _) => .source .oversizedInteger
  | representation, _ => .defect (.notScalar w)
  | list _, _ => .defect (.notList w)
  | orNull r, v => r.refusal w v
  | expressionKind, v => kindRefusal (.unknownExpressionKind ⟨w.steps.dropLast⟩) v
  | definitionKind, v => kindRefusal (.unknownDefinitionKind ⟨w.steps.dropLast⟩) v
  | _, _ => .defect (.notObject w)

end Role

/-! ## Parts -/

/-- A part of a document: where it stands, what it is read as, and the value there, if there is
one. -/
structure Part where
  place : Place
  role : Role
  value : Option Value

/-- What is wrong with a part, apart from its fields and items. -/
def Part.fault? (p : Part) : Option LoadError :=
  if p.role.accepts p.value then none else some (p.role.refusal p.place p.value)

mutual
/-- The parts of a value in the order of their reading. -/
def parts (r : Role) (w : Place) : Value → List Part
  | .object entries => ⟨w, r, some (.object entries)⟩ ::
      (r.fields entries).flatMap fun f => fieldParts f w entries
  | .list vs => ⟨w, r, some (.list vs)⟩ ::
      (match r.item? with
      | some s => itemParts s w 0 vs
      | none => [])
  | v => [⟨w, r, some v⟩]

/-- The parts of a field. -/
def fieldParts (f : Field) (w : Place) : List (Value × Value) → List Part
  | [] => if f.required then [⟨w.key f.key, f.role, none⟩] else []
  | (k, v) :: rest =>
    if k.isString f.key then parts f.role (w.key f.key) v else fieldParts f w rest

/-- The parts of the items of a list from a position on. -/
def itemParts (r : Role) (w : Place) (i : Nat) : List Value → List Part
  | [] => []
  | v :: rest => parts r (w.index i) v ++ itemParts r w (i + 1) rest
end

/-- **The parts of a document** that has these entries. -/
def reading (vs : List Value) : List Part := parts (.list .definition) {} (.list vs)

/-- The parts of what stands under a key, or the part that is missing there. -/
theorem fieldParts_eq (f : Field) (w : Place) (entries : List (Value × Value)) :
    fieldParts f w entries = (lookup f.key entries).elim
      (if f.required then [⟨w.key f.key, f.role, none⟩] else [])
      (parts f.role (w.key f.key)) := by
  induction entries with
  | nil => rfl
  | cons entry rest ih =>
    rw [fieldParts, lookup, ih]
    split <;> rfl

theorem parts_object (r : Role) (w : Place) (entries : List (Value × Value)) :
    parts r w (.object entries) = ⟨w, r, some (.object entries)⟩ ::
      (r.fields entries).flatMap fun f => fieldParts f w entries := rfl

theorem parts_list (r : Role) (w : Place) (vs : List Value) :
    parts r w (.list vs) = ⟨w, r, some (.list vs)⟩ ::
      r.item?.elim [] fun s => itemParts s w 0 vs := by
  rw [parts]
  cases r.item? <;> rfl

/-- The part at a field that is missing, or one of what stands there. -/
theorem mem_fieldParts {f : Field} {w : Place} {entries : List (Value × Value)} {p : Part}
    (h : p ∈ fieldParts f w entries) :
    (lookup f.key entries = none ∧ f.required = true ∧ p = ⟨w.key f.key, f.role, none⟩) ∨
      ∃ v, lookup f.key entries = some v ∧ p ∈ parts f.role (w.key f.key) v := by
  rw [fieldParts_eq] at h
  cases hv : lookup f.key entries with
  | none =>
    rw [hv, Option.elim_none] at h
    split at h
    · next hrequired => exact .inl ⟨rfl, hrequired, List.mem_singleton.mp h⟩
    · nomatch h
  | some v =>
    rw [hv, Option.elim_some] at h
    exact .inr ⟨v, rfl, h⟩

/-- What is neither an object nor a list is a part alone. -/
theorem parts_other {v : Value} (hobject : ∀ entries, v ≠ .object entries)
    (hlist : ∀ items, v ≠ .list items) (r : Role) (w : Place) : parts r w v = [⟨w, r, some v⟩] := by
  cases v with
  | object entries => exact absurd rfl (hobject entries)
  | list items => exact absurd rfl (hlist items)
  | _ => rfl

/-- A value without fields and items is a part alone. -/
theorem parts_leaf {r : Role} (hfields : ∀ entries, r.fields entries = []) (hitem : r.item? = none)
    (w : Place) (v : Value) : parts r w v = [⟨w, r, some v⟩] := by
  cases v with
  | object entries => rw [parts_object, hfields, List.flatMap_nil]
  | list vs => rw [parts_list, hitem, Option.elim]
  | _ => rfl

theorem fieldParts_leaf {r : Role} (hfields : ∀ entries, r.fields entries = [])
    (hitem : r.item? = none) (w : Place) (key : String) (entries : List (Value × Value)) :
    fieldParts ⟨key, true, r⟩ w entries = [⟨w.key key, r, lookup key entries⟩] := by
  rw [fieldParts_eq]
  cases lookup key entries with
  | none => rfl
  | some v => exact parts_leaf hfields hitem (w.key key) v

/-! ## Readings that follow parts -/

section Follows

variable {α β : Type}

/-- What a reading fails with, if it fails. -/
def failure? : Loaded α → Option LoadError
  | .ok _ => none
  | .error e => some e

/-- A reading fails with the first fault among parts, and with none it succeeds. -/
def Follows (x : Loaded α) (ps : List Part) : Prop := failure? x = ps.findSome? Part.fault?

theorem Follows.bind {x : Loaded α} {f : α → Loaded β} {ps qs : List Part} (hx : Follows x ps)
    (hf : ∀ a, x = .ok a → Follows (f a) qs) : Follows (x >>= f) (ps ++ qs) := by
  rw [Follows, List.findSome?_append, ← hx]
  cases x with
  | error e => rfl
  | ok a => exact hf a rfl

/-- What is made of a part that is read makes no difference. -/
theorem Follows.bind_ok {x : Loaded α} {ps : List Part} (hx : Follows x ps) (f : α → β) :
    Follows (x >>= fun a => .ok (f a)) ps := by
  rw [Follows, ← hx]
  cases x <;> rfl

theorem Follows.map {x : Loaded α} {ps : List Part} (hx : Follows x ps) (f : α → β) :
    Follows (x.map f) ps := by
  rw [Follows, ← hx]
  cases x <;> rfl

/-- A part without fault is passed over. -/
theorem Follows.cons {x : Loaded α} {p : Part} {ps : List Part} (hp : p.fault? = none)
    (hx : Follows x ps) : Follows x (p :: ps) := by
  rw [Follows, List.findSome?_cons_of_isNone (by rw [hp]; rfl)]
  exact hx

/-- A reader follows the parts of a role, wherever a value stands. -/
def Obeys (read : Place → Value → Loaded α) (r : Role) (v : Value) : Prop :=
  ∀ w, Follows (read w v) (parts r w v)

end Follows

/-! ## Simple readers -/

theorem follows_name (w : Place) (v : Option Value) : Follows (name w v) [⟨w, .name, v⟩] := by
  rw [name.eq_def]
  split
  · next s => by_cases hs : s = "" <;> simp [Follows, failure?, refuse, Part.fault?, Role.accepts,
      Role.refusal, hs]
  · next hv =>
    have h : Role.accepts .name v = false := by
      unfold Role.accepts
      split <;> simp_all
    simp [Follows, failure?, refuse, Part.fault?, Role.refusal, h]

theorem obeys_name (v : Value) : Obeys (fun w v => name w (some v)) .name v := by
  intro w
  rw [parts_leaf (fun _ => rfl) rfl]
  exact follows_name w (some v)

theorem obeys_nullable (v : Value) : Obeys (fun w v => nullable w (some v)) .truth v := by
  intro w
  cases v <;> rfl

theorem obeys_representation (v : Value) : Obeys representation .representation v := by
  intro w
  cases v with
  | int n =>
    rw [parts_leaf (fun _ => rfl) rfl, representation, integerText]
    cases hn : Number.integerText? n <;>
      simp [Follows, failure?, Part.fault?, Role.accepts, Role.refusal, hn]
  | _ => rfl

/-! ## Fields and items -/

section Fields

variable {α : Type} {read : Place → Value → Loaded α} {r : Role}

theorem follows_nameAt (w : Place) (key : String) (es : List (Value × Value)) :
    Follows (nameAt w key es) (fieldParts ⟨key, true, .name⟩ w es) := by
  rw [nameAt, fieldParts_eq]
  cases lookup key es with
  | none => exact follows_name (w.key key) none
  | some v => exact obeys_name v (w.key key)

theorem follows_items {vs : List Value} (h : ∀ v ∈ vs, Obeys read r v) (w : Place) (i : Nat) :
    Follows (items w read i vs) (itemParts r w i vs) := by
  induction vs generalizing i with
  | nil => rfl
  | cons v vs ih =>
    obtain ⟨hv, hvs⟩ := List.forall_mem_cons.mp h
    rw [items, itemParts]
    exact (hv _).bind fun a _ => (ih hvs (i + 1)).bind_ok _

theorem obeys_list {v : Value} (h : ∀ vs, v = .list vs → ∀ u ∈ vs, Obeys read r u) :
    Obeys (fun w v => list w read v) (.list r) v := by
  intro w
  cases v with
  | list vs => exact (follows_items (h vs rfl) w 0).cons rfl
  | _ => rfl

theorem follows_listAt (h : ∀ v, Obeys read r v) (w : Place) (key : String)
    (es : List (Value × Value)) :
    Follows (listAt w key read es) (fieldParts ⟨key, false, .list r⟩ w es) := by
  rw [listAt, fieldParts_eq]
  cases lookup key es with
  | none => rfl
  | some v => exact obeys_list (fun _ _ u _ => h u) (w.key key)

/-- What may be null is judged as what may not, unless it is null. -/
theorem findSome?_parts_orNull {v : Value} (hv : v ≠ .null) (w : Place) :
    (parts (.orNull r) w v).findSome? Part.fault? = (parts r w v).findSome? Part.fault? := by
  have h : Role.accepts (.orNull r) (some v) = r.accepts (some v) := by
    cases v <;> first | rfl | exact absurd rfl hv
  have hfault : Part.fault? ⟨w, .orNull r, some v⟩ = Part.fault? ⟨w, r, some v⟩ := by
    simp only [Part.fault?, Role.refusal, h]
  cases v <;> simp only [parts, Role.fields, Role.item?, List.findSome?_cons, hfault]

theorem follows_optional (h : ∀ v, Obeys read r v) (w : Place) (key : String)
    (es : List (Value × Value)) : Follows (optional (read (w.key key)) (lookup key es))
      (fieldParts ⟨key, false, .orNull r⟩ w es) := by
  rw [fieldParts_eq]
  cases lookup key es with
  | none => rfl
  | some v =>
    by_cases hv : v = .null
    · rw [hv]
      rfl
    · have hread : Loaded.optional (read (w.key key)) (some v) = (read (w.key key) v).map some := by
        rw [Loaded.optional]
        exact hv
      rw [hread]
      exact ((h v _).map some).trans (findSome?_parts_orNull hv _).symm

theorem follows_nullableAt (w : Place) (es : List (Value × Value)) :
    Follows (nullable (w.key "nullable") (lookup "nullable" es))
      (fieldParts ⟨"nullable", false, .truth⟩ w es) := by
  rw [fieldParts_eq]
  cases lookup "nullable" es with
  | none => rfl
  | some v => exact obeys_nullable v (w.key "nullable")

theorem follows_representationAt (w : Place) (name : String) (es : List (Value × Value)) :
    Follows ((lookup "stringRepresentation" es).elim (.ok name)
        (representation (w.key "stringRepresentation")))
      (fieldParts ⟨"stringRepresentation", false, .representation⟩ w es) := by
  rw [fieldParts_eq]
  cases lookup "stringRepresentation" es with
  | none => rfl
  | some v => exact obeys_representation v (w.key "stringRepresentation")

end Fields

/-! ## Expressions -/

section Object

/-! One level of an object, when its fields are read in their order. -/

variable {w : Place} {key : String} {es : List (Value × Value)}

theorem follows_expressionAt
    (ih : ∀ key v, lookup key es = some v → Obeys expression .expression v) :
    Follows (expressionAt w key es) (fieldParts ⟨key, true, .expression⟩ w es) := by
  rw [expressionAt_eq, fieldParts_eq]
  cases hv : lookup key es with
  | none => rfl
  | some v => exact ih key v hv _

theorem follows_expressionsAt {optional : Bool}
    (ih : ∀ key vs, lookup key es = some (.list vs) → ∀ v ∈ vs, Obeys expression .expression v) :
    Follows (expressionsAt w key optional es)
      (fieldParts ⟨key, !optional, .list .expression⟩ w es) := by
  rw [expressionsAt_eq, fieldParts_eq]
  cases hv : lookup key es with
  | none => cases optional <;> rfl
  | some v => exact obeys_list (fun vs hvs => ih key vs (hvs ▸ hv)) (w.key key)

theorem dropLast_key (w : Place) (key : String) : (w.key key).steps.dropLast = w.steps := by
  rw [Place.steps_key, List.dropLast_concat]

/-- A kind that is not known is told of the object. -/
theorem follows_refuse {α : Type} {p : Part} {d : String → Defect}
    (h : p.fault? = some (Role.kindRefusal d p.value)) :
    Follows (kindText p.value >>= fun t => refuse (α := α) (d t)) [p] := by
  rw [Follows, List.findSome?_singleton, h, Role.kindRefusal, kindText]
  cases (p.value.getD .null).printed? <;> rfl

theorem follows_expression_object
    (ih : ∀ key v, lookup key es = some v → Obeys expression .expression v)
    (ihItems : ∀ key vs, lookup key es = some (.list vs) →
      ∀ v ∈ vs, Obeys expression .expression v) :
    Follows (expression w (.object es))
      ((Role.fields es .expression).flatMap fun f => fieldParts f w es) := by
  rw [expression, Role.fields, List.flatMap_cons, fieldParts_leaf (fun _ => rfl) rfl]
  cases hk : kindOf exprKinds (lookup "kind" es) with
  | none =>
    have h : Part.fault? ⟨w.key "kind", .expressionKind, lookup "kind" es⟩ =
        some (Role.kindRefusal (.unknownExpressionKind w) (lookup "kind" es)) := by
      simp [Part.fault?, Role.accepts, Role.refusal, hk]
    rw [kindFields_of_none hk]
    exact follows_refuse h
  | some k =>
    refine .cons (by simp [Part.fault?, Role.accepts, hk]) ?_
    rw [kindFields_of_some hk]
    cases k <;> simp only [exprFields, List.flatMap_cons, List.flatMap_nil, List.append_nil]
    case array => exact (follows_expressionAt ih).bind_ok _
    case dictionary =>
      exact (follows_expressionAt ih).bind fun _ _ => (follows_expressionAt ih).bind_ok _
    case singleKey => exact (follows_expressionAt ih).bind_ok _
    case union => exact (follows_expressionsAt ihItems).bind_ok _
    case implementation =>
      exact (follows_nameAt w _ es).bind fun _ _ => (follows_expressionsAt ihItems).bind_ok _
    case reference =>
      exact (follows_nameAt w _ es).bind fun _ _ => (follows_expressionsAt ihItems).bind_ok _

end Object

theorem obeys_expression (v : Value) : Obeys expression .expression v := by
  induction v using Value.inductParts with
  | object es ih ihItems => exact fun w => (follows_expression_object ih ihItems).cons rfl
  | list vs ih => exact fun w => rfl
  | other v hobject hlist =>
    intro w
    cases v with
    | object es => exact absurd rfl (hobject es)
    | _ => rfl

/-! ## Members -/

theorem obeys_property (v : Value) : Obeys property .property v := by
  intro w
  cases v with
  | object es =>
    refine .cons rfl ?_
    rw [property]
    simp only [Role.fields, List.flatMap_cons, List.flatMap_nil, List.append_nil]
    refine (follows_nameAt w "name" es).bind fun name _ => ?_
    refine (follows_optional obeys_expression w "type" es).bind fun type _ => ?_
    exact (follows_nullableAt w es).bind_ok _
  | _ => rfl

theorem obeys_properties (v : Value) : Obeys (fun w => list w property) (.list .property) v :=
  obeys_list fun _ _ u _ => obeys_property u

theorem obeys_body (v : Value) : Obeys body .body v := by
  intro w
  cases v with
  | list vs => exact ((follows_items (fun v _ => obeys_property v) w 0).map _).cons rfl
  | object es => exact (obeys_expression (.object es) w).map _
  | _ => rfl

theorem obeys_member (v : Value) : Obeys member .member v := by
  intro w
  cases v with
  | object es =>
    refine .cons rfl ?_
    rw [member_object]
    simp only [Role.fields, List.flatMap_cons, List.flatMap_nil, List.append_nil]
    refine (follows_nameAt w "name" es).bind fun name _ => ?_
    exact (follows_representationAt w name es).map _
  | _ => rfl

/-! ## Definitions -/

theorem follows_expressions (w : Place) (key : String) (es : List (Value × Value)) :
    Follows (expressionsAt w key true es) (fieldParts ⟨key, false, .list .expression⟩ w es) :=
  follows_expressionsAt fun _ _ _ v _ => obeys_expression v

theorem follows_openGenerics (w : Place) (es : List (Value × Value)) :
    Follows (listAt w "openGenerics" (fun w v => name w (some v)) es)
      (fieldParts ⟨"openGenerics", false, .list .name⟩ w es) :=
  follows_listAt obeys_name w "openGenerics" es

theorem follows_header (w : Place) (name : String) (es : List (Value × Value)) :
    Follows (header w name es) (fieldParts ⟨"openGenerics", false, .list .name⟩ w es ++
      fieldParts ⟨"inherits", false, .list .expression⟩ w es) :=
  (follows_openGenerics w es).bind fun _ _ => (follows_expressions w "inherits" es).bind_ok _

theorem follows_group (w : Place) (key : String) (es : List (Value × Value)) :
    Follows (group w key es) (fieldParts ⟨key, false, .orNull (.list .property)⟩ w es) :=
  follows_optional obeys_properties w key es

theorem follows_definition_object (w : Place) (es : List (Value × Value)) :
    Follows (definition w (.object es))
      ((Role.fields es .definition).flatMap fun f => fieldParts f w es) := by
  rw [definition, Role.fields, List.flatMap_cons, List.flatMap_cons,
    fieldParts_leaf (r := .definitionKind) (fun _ => rfl) rfl]
  refine (follows_nameAt w "name" es).bind fun name _ => ?_
  cases hk : kindOf definitionKinds (lookup "kind" es) with
  | none =>
    have h : Part.fault? ⟨w.key "kind", .definitionKind, lookup "kind" es⟩ =
        some (Role.kindRefusal (.unknownDefinitionKind w) (lookup "kind" es)) := by
      simp [Part.fault?, Role.accepts, Role.refusal, hk]
    rw [kindFields_of_none hk]
    exact follows_refuse h
  | some k =>
    refine .cons (by simp [Part.fault?, Role.accepts, hk]) ?_
    rw [kindFields_of_some hk]
    cases k <;> simp only [definitionFields, List.flatMap_cons, List.flatMap_nil, List.append_nil]
    case stringAlias => rfl
    case numberAlias => rfl
    case unionAlias => exact (follows_expressionAt fun _ v _ => obeys_expression v).bind_ok _
    case enumeration => exact (follows_listAt obeys_member w "members" es).bind_ok _
    case interface =>
      rw [← List.append_assoc]
      refine (follows_header w name es).bind fun header _ => ?_
      exact (follows_listAt obeys_property w "properties" es).bind_ok _
    case request =>
      rw [← List.append_assoc]
      refine (follows_header w name es).bind fun header _ => ?_
      refine (follows_group w "path" es).bind fun path _ => ?_
      refine (follows_group w "queryParameters" es).bind fun query _ => ?_
      exact (follows_optional obeys_body w "body" es).bind_ok _

theorem obeys_definition (v : Value) : Obeys definition .definition v := by
  intro w
  cases v with
  | object es => exact (follows_definition_object w es).cons rfl
  | _ => rfl

/-- **A document is loaded unless there is a fault among its parts; then the first one is what is
reported.** -/
theorem follows_reading {entries : List (Value × Value)} {vs : List Value}
    (h : lookup "types" entries = some (.list vs)) :
    Follows (Catalog.ofDocument entries) (reading vs) := by
  rw [Catalog.ofDocument, h]
  exact (follows_items (fun v _ => obeys_definition v) {} 0).cons rfl

end TypeCatalog.Document
