import TypeCatalog.Catalog.Load
import TypeCatalog.Proofs.Document.Grammar
import TypeCatalog.Proofs.Failure

/-!
# Proofs/Document/Acceptance — a document is loaded exactly when it is a catalog

Each reader of `Catalog/Load` succeeds on exactly the values of the relation of its name in
`Proofs/Document/Grammar`, with the related part as its result, wherever the value stands.
-/

namespace TypeCatalog.Loaded

open Value Document Failure

/-! ## Kinds -/

/-- The word for a kind of expressions. -/
def ExprKind.word : ExprKind → String
  | array => "array_of"
  | dictionary => "dictionary"
  | singleKey => "single_key_dictionary"
  | union => "union_of"
  | implementation => "implements"
  | reference => "reference"

/-- The word for a kind of definitions. -/
def DefinitionKind.word : DefinitionKind → String
  | stringAlias => "string_alias"
  | numberAlias => "number_alias"
  | unionAlias => "union_alias"
  | enumeration => "enum"
  | interface => "interface"
  | request => "request"

/-- A kind that is found is that of a word in the table. -/
theorem mem_of_kindOf {α : Type} {words : List (String × α)} {v : Option Value} {k : α}
    (h : kindOf words v = some k) : ∃ s, v = some (.string s) ∧ (s, k) ∈ words := by
  rw [kindOf.eq_def] at h
  split at h
  · next s =>
    obtain ⟨before, after, rfl, -⟩ := List.lookup_eq_some_iff.mp h
    exact ⟨s, rfl, List.mem_append_right _ List.mem_cons_self⟩
  · nomatch h

/-- The kinds of expressions are told apart by their words. -/
theorem kindOf_exprKinds {v : Option Value} {k : ExprKind} :
    kindOf exprKinds v = some k ↔ v = some (.string k.word) := by
  constructor
  · intro h
    obtain ⟨s, rfl, hs⟩ := mem_of_kindOf h
    cases k <;> simpa [exprKinds, ExprKind.word] using hs
  · rintro rfl
    cases k <;> rfl

/-- The kinds of definitions are told apart by their words. -/
theorem kindOf_definitionKinds {v : Option Value} {k : DefinitionKind} :
    kindOf definitionKinds v = some k ↔ v = some (.string k.word) := by
  constructor
  · intro h
    obtain ⟨s, rfl, hs⟩ := mem_of_kindOf h
    cases k <;> simpa [definitionKinds, DefinitionKind.word] using hs
  · rintro rfl
    cases k <;> rfl

/-! ## Simple parts -/

/-- A name is a string that is not empty. -/
theorem name_eq_ok {w : Place} {v : Option Value} {s : String} : name w v = .ok s ↔ IsName v s := by
  rw [name.eq_def]
  split
  · next t =>
    by_cases ht : t = ""
    · rw [if_pos ht]
      exact ⟨nofun, fun ⟨h, hs⟩ => absurd (by simpa [ht] using h.symm) hs⟩
    · rw [if_neg ht]
      refine ⟨fun h => ?_, fun ⟨h, _⟩ => ?_⟩
      · obtain rfl := Except.ok.inj h
        exact ⟨rfl, ht⟩
      · cases h
        rfl
  · next hv => exact ⟨nofun, fun ⟨h, _⟩ => absurd h (hv s)⟩

/-- A flag is a truth value, and false if it is absent. -/
theorem nullable_eq_ok {w : Place} {v : Option Value} {b : Bool} :
    nullable w v = .ok b ↔ v.getD (.bool false) = .bool b := by
  rw [nullable.eq_def]
  split
  · simp [eq_comm]
  · simp
  · next v hv => exact ⟨nofun, fun h => absurd h (hv b)⟩

/-- A representation is a scalar in its usual spelling. -/
theorem representation_eq_ok {w : Place} {v : Value} {t : String} :
    representation w v = .ok t ↔ IsRepresentation v t := by
  constructor
  · intro h
    cases v with
    | bool b =>
      cases h
      exact .bool b
    | int n =>
      rw [representation, integerText] at h
      split at h
      · next s hs =>
        cases h
        exact .int hs
      · nomatch h
    | float x =>
      cases h
      exact .float x
    | string s =>
      cases h
      exact .string _
    | _ => nomatch h
  · intro h
    cases h with
    | string s => rfl
    | bool b => rfl
    | int h => rw [representation, integerText, h]
    | float x => rfl

/-! ## Lists -/

section Lists

variable {α : Type} {read : Place → Value → Loaded α} {is : Value → α → Prop}

/-- A value is read, wherever it stands, exactly as what it is. -/
def Reads (read : Place → Value → Loaded α) (is : Value → α → Prop) (v : Value) : Prop :=
  ∀ w a, read w v = .ok a ↔ is v a

/-- The items of a list are read as what they are, each by itself. -/
theorem items_eq_ok {w : Place} {vs : List Value} (h : ∀ v ∈ vs, Reads read is v) {i : Nat}
    {as : List α} :
    items w read i vs = .ok as ↔ List.Forall₂ is vs as := by
  induction vs generalizing i as with
  | nil =>
    rw [List.forall₂_nil_left_iff, items]
    exact ⟨fun h => (Except.ok.inj h).symm, fun h => h ▸ rfl⟩
  | cons v vs ih =>
    obtain ⟨hv, hvs⟩ := List.forall_mem_cons.mp h
    rw [items, bind_eq_ok, List.forall₂_cons_left_iff]
    simp only [bind_eq_ok, hv _ _, ih hvs]
    constructor
    · rintro ⟨a, ha, others, hothers, heq⟩
      exact ⟨a, others, ha, hothers, (Except.ok.inj heq).symm⟩
    · rintro ⟨a, others, ha, hothers, rfl⟩
      exact ⟨a, ha, others, hothers, rfl⟩

/-- A list is read exactly from a list, if its items are read as what they are. -/
theorem list_eq_ok {w : Place} {v : Value} (h : ∀ vs, v = .list vs → ∀ u ∈ vs, Reads read is u)
    {as : List α} : list w read v = .ok as ↔ IsList is v as := by
  rw [list.eq_def]
  split
  · next vs =>
    rw [items_eq_ok (h vs rfl)]
    exact ⟨fun hvs => ⟨vs, rfl, hvs⟩, fun ⟨us, hus, h⟩ => Value.list.inj hus ▸ h⟩
  · next hv => exact ⟨nofun, fun ⟨vs, hvs, _⟩ => absurd hvs (hv vs)⟩

/-- A list under a key may be absent, and is empty then. -/
theorem listAt_eq_ok (h : ∀ v, Reads read is v) {w : Place} {key : String}
    {entries : List (Value × Value)} {as : List α} :
    listAt w key read entries = .ok as ↔ IsList is (listUnder key entries) as := by
  rw [← list_eq_ok (w := w.key key) fun _ _ u _ => h u, listAt, listUnder]
  cases lookup key entries <;> rfl

/-- A part that may be absent is read exactly from nothing, from null, or as what it is. -/
theorem optional_eq_ok (h : ∀ v, Reads read is v) {w : Place} {v : Option Value} {a : Option α} :
    optional (read w) v = .ok a ↔ OrNone is v a := by
  rw [optional.eq_def]
  split
  · refine ⟨fun h => ?_, fun h => ?_⟩
    · cases h
      exact .absent
    · cases h
      rfl
  · refine ⟨fun h => ?_, fun h => ?_⟩
    · cases h
      exact .null
    · cases h with
      | null => rfl
      | present hne _ => exact absurd rfl hne
  · next v hne =>
    rw [map_eq_ok]
    refine ⟨fun ⟨b, hb, heq⟩ => heq ▸ .present hne ((h v w b).mp hb), fun hv => ?_⟩
    cases hv with
    | null => exact absurd rfl hne
    | present _ hb => exact ⟨_, (h v w _).mpr hb, rfl⟩

end Lists

/-! ## Type expressions -/

/-- What is read of an object of a known kind. -/
theorem expression_of_kind (w : Place) {es : List (Value × Value)} {k : ExprKind}
    (h : HasKind es k.word) : expression w (.object es) = match k with
      | .array => return .array (← expressionAt w "of" es)
      | .dictionary => do
        let key ← expressionAt w "key" es
        let value ← expressionAt w "value" es
        return .dictionary key value
      | .singleKey => return .singleKey (← expressionAt w "value" es)
      | .union => return .union (← expressionsAt w "items" false es)
      | .implementation => do
        let name ← nameAt w "type" es
        return .implementation name (← expressionsAt w "closedGenerics" true es)
      | .reference => do
        let name ← nameAt w "name" es
        return .reference name (← expressionsAt w "closedGenerics" true es) := by
  have hk : kindOf exprKinds (lookup "kind" es) = some k := kindOf_exprKinds.mpr h
  rw [expression]
  simp only [hk]
  cases k <;> rfl

section Object

/-! One level of an object, when the values below it are read as they should be. -/

variable {es : List (Value × Value)} {w : Place} {key : String}

/-- An expression under a key must be there. -/
theorem expressionAt_eq_ok (ih : ∀ key v, lookup key es = some v → Reads expression IsExpr v)
    {e : TypeExpr} :
    expressionAt w key es = .ok e ↔ ∃ v, lookup key es = some v ∧ IsExpr v e := by
  rw [expressionAt_eq]
  cases hv : lookup key es with
  | none => exact ⟨nofun, nofun⟩
  | some v =>
    refine (ih key v hv _ e).trans ⟨fun h => ⟨v, rfl, h⟩, ?_⟩
    rintro ⟨_, ⟨⟩, h⟩
    exact h

/-- The items of a union must be there. -/
theorem expressionsAt_required_eq_ok
    (ih : ∀ key vs, lookup key es = some (.list vs) → ∀ v ∈ vs, Reads expression IsExpr v)
    {exprs : List TypeExpr} : expressionsAt w key false es = .ok exprs ↔
      ∃ vs, lookup key es = some (.list vs) ∧ List.Forall₂ IsExpr vs exprs := by
  rw [expressionsAt_eq]
  cases hv : lookup key es with
  | none => exact ⟨nofun, nofun⟩
  | some v =>
    refine (list_eq_ok fun vs hvs => ih key vs (hvs ▸ hv)).trans ?_
    exact exists_congr fun vs => and_congr_left' Option.some_inj.symm

/-- Generics and ancestors may be absent. -/
theorem expressionsAt_optional_eq_ok
    (ih : ∀ key vs, lookup key es = some (.list vs) → ∀ v ∈ vs, Reads expression IsExpr v)
    {exprs : List TypeExpr} : expressionsAt w key true es = .ok exprs ↔
      IsList IsExpr (listUnder key es) exprs := by
  rw [expressionsAt_eq, listUnder]
  cases hv : lookup key es with
  | none =>
    change list (w.key key) expression (.list []) = .ok exprs ↔ IsList IsExpr (.list []) exprs
    refine list_eq_ok fun vs hvs => ?_
    obtain rfl := Value.list.inj hvs
    exact fun v hv => absurd hv List.not_mem_nil
  | some v => exact list_eq_ok fun vs hvs => ih key vs (hvs ▸ hv)

/-- What is read of an object is an expression by the grammar: one case for each kind. -/
theorem isExpr_of_expression (ih : ∀ key v, lookup key es = some v → Reads expression IsExpr v)
    (ihItems : ∀ key vs, lookup key es = some (.list vs) → ∀ v ∈ vs, Reads expression IsExpr v)
    {e : TypeExpr} (h : expression w (.object es) = .ok e) : IsExpr (.object es) e := by
  cases hk : kindOf exprKinds (lookup "kind" es) with
  | none =>
    rw [expression] at h
    simp only [hk] at h
    obtain ⟨_, _, h⟩ := bind_eq_ok.mp h
    nomatch h
  | some k =>
    have kind : HasKind es k.word := kindOf_exprKinds.mp hk
    rw [expression_of_kind w kind] at h
    cases k with
    | array =>
      obtain ⟨e, he, ⟨⟩⟩ := bind_eq_ok.mp h
      obtain ⟨v, hv, hve⟩ := (expressionAt_eq_ok ih).mp he
      exact .array kind hv hve
    | dictionary =>
      obtain ⟨k, hk, h⟩ := bind_eq_ok.mp h
      obtain ⟨e, he, ⟨⟩⟩ := bind_eq_ok.mp h
      obtain ⟨u, hu, huk⟩ := (expressionAt_eq_ok ih).mp hk
      obtain ⟨v, hv, hve⟩ := (expressionAt_eq_ok ih).mp he
      exact .dictionary kind hu huk hv hve
    | singleKey =>
      obtain ⟨e, he, ⟨⟩⟩ := bind_eq_ok.mp h
      obtain ⟨v, hv, hve⟩ := (expressionAt_eq_ok ih).mp he
      exact .singleKey kind hv hve
    | union =>
      obtain ⟨items, hitems, ⟨⟩⟩ := bind_eq_ok.mp h
      obtain ⟨vs, hvs, heach⟩ := (expressionsAt_required_eq_ok ihItems).mp hitems
      exact .union kind hvs heach
    | implementation =>
      obtain ⟨n, hn, h⟩ := bind_eq_ok.mp h
      obtain ⟨generics, hgenerics, ⟨⟩⟩ := bind_eq_ok.mp h
      obtain ⟨vs, hvs, heach⟩ := (expressionsAt_optional_eq_ok ihItems).mp hgenerics
      exact .implementation kind (name_eq_ok.mp hn) hvs heach
    | reference =>
      obtain ⟨n, hn, h⟩ := bind_eq_ok.mp h
      obtain ⟨generics, hgenerics, ⟨⟩⟩ := bind_eq_ok.mp h
      obtain ⟨vs, hvs, heach⟩ := (expressionsAt_optional_eq_ok ihItems).mp hgenerics
      exact .reference kind (name_eq_ok.mp hn) hvs heach

/-- An expression by the grammar is read: one case for each rule. -/
theorem expression_of_isExpr (ih : ∀ key v, lookup key es = some v → Reads expression IsExpr v)
    (ihItems : ∀ key vs, lookup key es = some (.list vs) → ∀ v ∈ vs, Reads expression IsExpr v)
    {e : TypeExpr} (h : IsExpr (.object es) e) : expression w (.object es) = .ok e := by
  cases h with
  | array kind hv he =>
    rw [expression_of_kind w (k := .array) kind]
    exact bind_eq_ok.mpr ⟨_, (expressionAt_eq_ok ih).mpr ⟨_, hv, he⟩, rfl⟩
  | dictionary kind hu hk hv he =>
    rw [expression_of_kind w (k := .dictionary) kind]
    refine bind_eq_ok.mpr ⟨_, (expressionAt_eq_ok ih).mpr ⟨_, hu, hk⟩, ?_⟩
    exact bind_eq_ok.mpr ⟨_, (expressionAt_eq_ok ih).mpr ⟨_, hv, he⟩, rfl⟩
  | singleKey kind hv he =>
    rw [expression_of_kind w (k := .singleKey) kind]
    exact bind_eq_ok.mpr ⟨_, (expressionAt_eq_ok ih).mpr ⟨_, hv, he⟩, rfl⟩
  | union kind hvs heach =>
    rw [expression_of_kind w (k := .union) kind]
    exact bind_eq_ok.mpr ⟨_, (expressionsAt_required_eq_ok ihItems).mpr ⟨_, hvs, heach⟩, rfl⟩
  | implementation kind hn hvs heach =>
    rw [expression_of_kind w (k := .implementation) kind]
    refine bind_eq_ok.mpr ⟨_, name_eq_ok.mpr hn, ?_⟩
    exact bind_eq_ok.mpr ⟨_, (expressionsAt_optional_eq_ok ihItems).mpr ⟨_, hvs, heach⟩, rfl⟩
  | reference kind hn hvs heach =>
    rw [expression_of_kind w (k := .reference) kind]
    refine bind_eq_ok.mpr ⟨_, name_eq_ok.mpr hn, ?_⟩
    exact bind_eq_ok.mpr ⟨_, (expressionsAt_optional_eq_ok ihItems).mpr ⟨_, hvs, heach⟩, rfl⟩

end Object

/-- **An expression is read exactly from the values that are it.** -/
theorem reads_expression (v : Value) : Reads expression IsExpr v := by
  induction v using Value.inductParts with
  | object es ih ihItems =>
    exact fun w e => ⟨isExpr_of_expression ih ihItems, expression_of_isExpr ih ihItems⟩
  | list vs ih => exact fun w e => ⟨nofun, nofun⟩
  | other v hobject hlist =>
    intro w e
    constructor
    · intro h
      cases v with
      | string s =>
        cases h
        exact .bare s
      | object es => exact absurd rfl (hobject es)
      | _ => nomatch h
    · rintro (_ | _)
      · rfl
      all_goals exact absurd rfl (hobject _)

/-! ## Members -/

/-- A member of an interface is read exactly from what is one. -/
theorem reads_property (v : Value) : Reads property IsProperty v := by
  intro w q
  cases v with
  | object es =>
    rw [property]
    constructor
    · intro h
      obtain ⟨name, hname, h⟩ := bind_eq_ok.mp h
      obtain ⟨type, htype, h⟩ := bind_eq_ok.mp h
      obtain ⟨nullable, hnullable, ⟨⟩⟩ := bind_eq_ok.mp h
      exact ⟨es, rfl, name_eq_ok.mp hname, (optional_eq_ok reads_expression).mp htype,
        nullable_eq_ok.mp hnullable⟩
    · rintro ⟨_, ⟨⟩, hname, htype, hnullable⟩
      refine bind_eq_ok.mpr ⟨_, name_eq_ok.mpr hname, ?_⟩
      refine bind_eq_ok.mpr ⟨_, (optional_eq_ok reads_expression).mpr htype, ?_⟩
      exact bind_eq_ok.mpr ⟨_, nullable_eq_ok.mpr hnullable, rfl⟩
  | _ => exact ⟨nofun, nofun⟩

/-- The reader of a list of members. -/
def properties (w : Place) : Value → Loaded (List Property) := list w property

theorem reads_properties (v : Value) : Reads properties (IsList IsProperty) v :=
  fun _ _ => list_eq_ok fun _ _ u _ => reads_property u

/-- A body is a list of members, or else a type. -/
theorem reads_body (v : Value) : Reads body IsBody v := by
  intro w b
  rw [body.eq_def]
  split
  · next vs =>
    change (properties w (.list vs)).map Body.properties = .ok b ↔ _
    rw [map_eq_ok]
    constructor
    · rintro ⟨qs, hqs, rfl⟩
      exact .properties ((reads_properties _ w qs).mp hqs)
    · rintro (hqs | ⟨⟨⟩⟩)
      exact ⟨_, (reads_properties _ w _).mpr hqs, rfl⟩
  · next hv =>
    rw [map_eq_ok]
    constructor
    · rintro ⟨e, he, rfl⟩
      exact .type ((reads_expression _ w e).mp he)
    · rintro (⟨vs, rfl, _⟩ | he)
      · exact absurd rfl (hv vs)
      · exact ⟨_, (reads_expression _ w _).mpr he, rfl⟩

/-- What represents a member, by default its name. -/
theorem representationAt_eq_ok {w : Place} {v : Option Value} {name t : String} :
    v.elim (.ok name) (representation w) = .ok t ↔ IsRepresentation (v.getD (.string name)) t := by
  cases v with
  | none => exact representation_eq_ok (w := w) (v := .string name)
  | some v => exact representation_eq_ok

/-- A member of an enumeration is read exactly from what is one. -/
theorem reads_member (v : Value) : Reads member IsMember v := by
  intro w m
  cases v with
  | object es =>
    rw [member_object]
    constructor
    · intro h
      obtain ⟨name, hname, h⟩ := bind_eq_ok.mp h
      obtain ⟨t, ht, rfl⟩ := map_eq_ok.mp h
      exact ⟨es, rfl, name_eq_ok.mp hname, representationAt_eq_ok.mp ht⟩
    · rintro ⟨_, ⟨⟩, hname, ht⟩
      refine bind_eq_ok.mpr ⟨_, name_eq_ok.mpr hname, ?_⟩
      exact map_eq_ok.mpr ⟨_, representationAt_eq_ok.mpr ht, rfl⟩
  | _ => exact ⟨nofun, nofun⟩

/-! ## Definitions -/

theorem openGenerics_eq_ok {w : Place} {es : List (Value × Value)} {names : List String} :
    listAt w "openGenerics" (fun w v => name w (some v)) es = .ok names ↔
      IsList (fun v => IsName (some v)) (listUnder "openGenerics" es) names := by
  have h : ∀ v, Reads (fun w v => name w (some v)) (fun v => IsName (some v)) v :=
    fun _ _ _ => name_eq_ok
  exact listAt_eq_ok h

theorem expressions_eq_ok {w : Place} {key : String} {es : List (Value × Value)}
    {exprs : List TypeExpr} :
    expressionsAt w key true es = .ok exprs ↔ IsList IsExpr (listUnder key es) exprs :=
  expressionsAt_optional_eq_ok fun _ _ _ v _ => reads_expression v

/-- A header is read exactly from what has the name that was read before it. -/
theorem header_eq_ok {w : Place} {name : String} {es : List (Value × Value)} {h : Header}
    (hname : IsName (lookup "name" es) name) :
    header w name es = .ok h ↔ h.name = name ∧ IsHeader es h := by
  rw [header]
  constructor
  · intro h
    obtain ⟨names, hnames, h⟩ := bind_eq_ok.mp h
    obtain ⟨ancestors, hancestors, ⟨⟩⟩ := bind_eq_ok.mp h
    exact ⟨rfl, hname, openGenerics_eq_ok.mp hnames, expressions_eq_ok.mp hancestors⟩
  · rintro ⟨rfl, -, hnames, hancestors⟩
    refine bind_eq_ok.mpr ⟨_, openGenerics_eq_ok.mpr hnames, ?_⟩
    exact bind_eq_ok.mpr ⟨_, expressions_eq_ok.mpr hancestors, rfl⟩

theorem group_eq_ok {w : Place} {key : String} {entries : List (Value × Value)}
    {qs : Option (List Property)} :
    group w key entries = .ok qs ↔ OrNone (IsList IsProperty) (lookup key entries) qs :=
  optional_eq_ok reads_properties (w := w.key key)

/-- What is read of an object of a known kind, once its name is. -/
theorem definition_of_kind (w : Place) {es : List (Value × Value)} {k : DefinitionKind}
    (h : HasKind es k.word) : definition w (.object es) = nameAt w "name" es >>= fun name =>
      match k with
      | .stringAlias => return .stringAlias name
      | .numberAlias => return .numberAlias name
      | .unionAlias => return .unionAlias name (← expressionAt w "wraps" es)
      | .enumeration => return .enumeration name (← listAt w "members" member es)
      | .interface => do
        let header ← header w name es
        return .interface header (← listAt w "properties" property es)
      | .request => do
        let header ← header w name es
        let path ← group w "path" es
        let query ← group w "queryParameters" es
        let body ← optional (body (w.key "body")) (lookup "body" es)
        return .request header path query body := by
  have hk : kindOf definitionKinds (lookup "kind" es) = some k := kindOf_definitionKinds.mpr h
  rw [definition]
  simp only [hk]
  cases k <;> rfl

/-- What is read of an object is a definition by the grammar: one case for each kind. -/
theorem isDefinition_of_definition {w : Place} {es : List (Value × Value)} {d : Definition}
    (h : definition w (.object es) = .ok d) : IsDefinition (.object es) d := by
  cases hk : kindOf definitionKinds (lookup "kind" es) with
  | none =>
    rw [definition] at h
    simp only [hk] at h
    obtain ⟨_, _, h⟩ := bind_eq_ok.mp h
    obtain ⟨_, _, h⟩ := bind_eq_ok.mp h
    nomatch h
  | some k =>
    have kind : HasKind es k.word := kindOf_definitionKinds.mp hk
    rw [definition_of_kind w kind] at h
    obtain ⟨name, hname, h⟩ := bind_eq_ok.mp h
    replace hname := name_eq_ok.mp hname
    cases k with
    | stringAlias =>
      cases h
      exact .stringAlias kind hname
    | numberAlias =>
      cases h
      exact .numberAlias kind hname
    | unionAlias =>
      obtain ⟨e, he, ⟨⟩⟩ := bind_eq_ok.mp h
      obtain ⟨v, hv, hve⟩ := (expressionAt_eq_ok fun _ v _ => reads_expression v).mp he
      exact .unionAlias kind hname hv hve
    | enumeration =>
      obtain ⟨members, hmembers, ⟨⟩⟩ := bind_eq_ok.mp h
      exact .enumeration kind hname ((listAt_eq_ok reads_member).mp hmembers)
    | interface =>
      obtain ⟨header, hheader, h⟩ := bind_eq_ok.mp h
      obtain ⟨properties, hproperties, ⟨⟩⟩ := bind_eq_ok.mp h
      exact .interface kind ((header_eq_ok hname).mp hheader).2
        ((listAt_eq_ok reads_property).mp hproperties)
    | request =>
      obtain ⟨header, hheader, h⟩ := bind_eq_ok.mp h
      obtain ⟨path, hpath, h⟩ := bind_eq_ok.mp h
      obtain ⟨query, hquery, h⟩ := bind_eq_ok.mp h
      obtain ⟨body, hbody, ⟨⟩⟩ := bind_eq_ok.mp h
      exact .request kind ((header_eq_ok hname).mp hheader).2 (group_eq_ok.mp hpath)
        (group_eq_ok.mp hquery) ((optional_eq_ok reads_body).mp hbody)

/-- A definition by the grammar is read: one case for each rule. -/
theorem definition_of_isDefinition {w : Place} {es : List (Value × Value)} {d : Definition}
    (h : IsDefinition (.object es) d) : definition w (.object es) = .ok d := by
  cases h with
  | stringAlias kind hname =>
    rw [definition_of_kind w (k := .stringAlias) kind]
    exact bind_eq_ok.mpr ⟨_, name_eq_ok.mpr hname, rfl⟩
  | numberAlias kind hname =>
    rw [definition_of_kind w (k := .numberAlias) kind]
    exact bind_eq_ok.mpr ⟨_, name_eq_ok.mpr hname, rfl⟩
  | unionAlias kind hname hv he =>
    rw [definition_of_kind w (k := .unionAlias) kind]
    refine bind_eq_ok.mpr ⟨_, name_eq_ok.mpr hname, ?_⟩
    have hwraps := (expressionAt_eq_ok (w := w) fun _ v _ => reads_expression v).mpr ⟨_, hv, he⟩
    exact bind_eq_ok.mpr ⟨_, hwraps, rfl⟩
  | enumeration kind hname hmembers =>
    rw [definition_of_kind w (k := .enumeration) kind]
    refine bind_eq_ok.mpr ⟨_, name_eq_ok.mpr hname, ?_⟩
    exact bind_eq_ok.mpr ⟨_, (listAt_eq_ok reads_member).mpr hmembers, rfl⟩
  | interface kind hheader hproperties =>
    rw [definition_of_kind w (k := .interface) kind]
    refine bind_eq_ok.mpr ⟨_, name_eq_ok.mpr hheader.1, ?_⟩
    refine bind_eq_ok.mpr ⟨_, (header_eq_ok hheader.1).mpr ⟨rfl, hheader⟩, ?_⟩
    exact bind_eq_ok.mpr ⟨_, (listAt_eq_ok reads_property).mpr hproperties, rfl⟩
  | request kind hheader hpath hquery hbody =>
    rw [definition_of_kind w (k := .request) kind]
    refine bind_eq_ok.mpr ⟨_, name_eq_ok.mpr hheader.1, ?_⟩
    refine bind_eq_ok.mpr ⟨_, (header_eq_ok hheader.1).mpr ⟨rfl, hheader⟩, ?_⟩
    refine bind_eq_ok.mpr ⟨_, group_eq_ok.mpr hpath, ?_⟩
    refine bind_eq_ok.mpr ⟨_, group_eq_ok.mpr hquery, ?_⟩
    exact bind_eq_ok.mpr ⟨_, (optional_eq_ok reads_body).mpr hbody, rfl⟩

/-- **A definition is read exactly from the values that are it.** -/
theorem reads_definition (v : Value) : Reads definition IsDefinition v := by
  intro w d
  cases v with
  | object es => exact ⟨isDefinition_of_definition, definition_of_isDefinition⟩
  | _ => exact ⟨nofun, nofun⟩

/-- **A document is loaded exactly when it is a catalog, and as that catalog.** -/
theorem ofDocument_eq_ok {entries : List (Value × Value)} {c : Catalog} :
    Catalog.ofDocument entries = .ok c ↔ IsCatalog entries c := by
  rw [Catalog.ofDocument.eq_def]
  split
  · next vs hvs =>
    rw [items_eq_ok fun v _ => reads_definition v]
    refine ⟨fun h => ⟨vs, hvs, h⟩, ?_⟩
    rintro ⟨_, hus, h⟩
    cases hvs.symm.trans hus
    exact h
  · next hv => exact ⟨nofun, fun ⟨vs, hvs, _⟩ => absurd hvs (hv vs)⟩

end TypeCatalog.Loaded
