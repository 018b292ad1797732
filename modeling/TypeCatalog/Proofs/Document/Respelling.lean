import TypeCatalog.Proofs.Document.Acceptance
import TypeCatalog.Proofs.Document.Site

/-!
# Proofs/Document/Respelling — a type by its name alone, and as an object

A reference without generics can be written as a bare string and as an object with its kind and its
name.  `respelled` writes it as an object at any chosen places of a document where an expression
stands, and leaves all else as it is.

An object is checked where a string is not: its name must not be empty.  **If no empty string is
chosen, a document is read as before** (`Invariant`), with the same catalog or the same defect; a
chosen empty string is refused as an object (`exists_fault_of_chosen`).
-/

namespace TypeCatalog.Document

open Value Loaded

/-- Whether a string is read as an expression. -/
def Role.isExpression : Role → Bool
  | .expression => true
  | .body => true
  | .orNull r => r.isExpression
  | _ => false

/-- Whether no expression is read of a value of a role, at any depth. -/
def Role.isPlain : Role → Bool
  | .name => true
  | .truth => true
  | .representation => true
  | .member => true
  | .expressionKind => true
  | .definitionKind => true
  | .list r => r.isPlain
  | .orNull r => r.isPlain
  | _ => false

/-- The object that refers to the type of a name. -/
def plainReference (name : String) : Value :=
  .object [(.string "kind", .string "reference"), (.string "name", .string name)]

mutual
/-- A value with the bare strings at chosen places replaced by objects, where they are read as
expressions. -/
def respelled (chosen : Place → Bool) (r : Role) (w : Place) : Value → Value
  | .string s => if r.isExpression && chosen w then plainReference s else .string s
  | .object entries => .object (respelledEntries chosen (r.fields entries) w entries)
  | .list vs =>
    match r.item? with
    | some s => .list (respelledItems chosen s w 0 vs)
    | none => .list vs
  | v => v

/-- The entries of an object with these fields. -/
def respelledEntries (chosen : Place → Bool) (fs : List Field) (w : Place) :
    List (Value × Value) → List (Value × Value)
  | [] => []
  | (k, v) :: rest =>
    (k, match fs.find? fun f => k.isString f.key with
      | some f => respelled chosen f.role (w.key f.key) v
      | none => v) :: respelledEntries chosen fs w rest

/-- The items of a list from a position on. -/
def respelledItems (chosen : Place → Bool) (r : Role) (w : Place) (i : Nat) :
    List Value → List Value
  | [] => []
  | v :: rest => respelled chosen r (w.index i) v :: respelledItems chosen r w (i + 1) rest
end

/-- The entries of a document, with the bare strings at chosen places replaced by objects. -/
def respelledDocument (chosen : Place → Bool) (entries : List (Value × Value)) :
    List (Value × Value) :=
  entries.map fun (k, v) =>
    (k, if k.isString "types" then respelled chosen (.list .definition) {} v else v)

variable {chosen : Place → Bool} {r : Role} {w : Place}

/-! ## What is replaced, and what is not -/

theorem Role.isPlain_field (h : r.isPlain) (es : List (Value × Value)) :
    ∀ f ∈ r.fields es, f.role.isPlain := by
  induction r with
  | member =>
    have plain : ∀ f ∈ Role.fields [] .member, f.role.isPlain := by decide
    exact plain
  | orNull r ih => exact ih h
  | expression => nomatch h
  | property => nomatch h
  | definition => nomatch h
  | body => nomatch h
  | _ => exact nofun

theorem Role.isPlain_item {s : Role} (h : r.isPlain) (hs : r.item? = some s) : s.isPlain := by
  induction r with
  | list r _ => exact Option.some.inj hs ▸ h
  | orNull r ih => exact ih h hs
  | body => nomatch h
  | _ => nomatch hs

theorem Role.not_isExpression_of_isPlain (h : r.isPlain) : r.isExpression = false := by
  induction r with
  | orNull r ih => exact ih h
  | expression => nomatch h
  | body => nomatch h
  | _ => rfl

mutual
/-- Where no expression is read, nothing is replaced. -/
theorem respelled_plain : (v : Value) → ∀ (r : Role) (w : Place), r.isPlain →
    respelled chosen r w v = v
  | .string s, r, w, h => by rw [respelled, Role.not_isExpression_of_isPlain h]; rfl
  | .object entries, r, w, h => by
    rw [respelled, respelledEntries_plain entries _ w (Role.isPlain_field h entries)]
  | .list vs, r, w, h => by
    rw [respelled]
    split
    · next s hs => rw [respelledItems_plain vs s w 0 (Role.isPlain_item h hs)]
    · rfl
  | .null, _, _, _ => rfl
  | .bool _, _, _, _ => rfl
  | .int _, _, _, _ => rfl
  | .float _, _, _, _ => rfl
  | .day _, _, _, _ => rfl
  | .moment _, _, _, _ => rfl
  | .bytes _, _, _, _ => rfl
  | .set _, _, _, _ => rfl
  | .pair _ _, _, _, _ => rfl

theorem respelledEntries_plain : (es : List (Value × Value)) → ∀ (fs : List Field) (w : Place),
    (∀ f ∈ fs, f.role.isPlain) → respelledEntries chosen fs w es = es
  | [], _, _, _ => rfl
  | (k, v) :: rest, fs, w, h => by
    rw [respelledEntries, respelledEntries_plain rest fs w h]
    split
    · next f hf => rw [respelled_plain v f.role _ (h f (List.mem_of_find?_eq_some hf))]
    · rfl

theorem respelledItems_plain : (vs : List Value) → ∀ (r : Role) (w : Place) (i : Nat), r.isPlain →
    respelledItems chosen r w i vs = vs
  | [], _, _, _, _ => rfl
  | v :: rest, r, w, i, h => by
    rw [respelledItems, respelled_plain v r _ h, respelledItems_plain rest r w (i + 1) h]
end

theorem respelled_orNull (v : Value) : respelled chosen (.orNull r) w v = respelled chosen r w v := by
  cases v <;> rfl

/-- What stands under the key of a field is replaced as its role says. -/
theorem lookup_respelledEntries {fs : List Field} (hkeys : (fs.map Field.key).Nodup) {f : Field}
    (hf : f ∈ fs) (w : Place) (es : List (Value × Value)) :
    lookup f.key (respelledEntries chosen fs w es) =
      (lookup f.key es).map (respelled chosen f.role (w.key f.key)) := by
  induction es with
  | nil => rfl
  | cons entry rest ih =>
    obtain ⟨k, v⟩ := entry
    rw [respelledEntries, lookup, lookup, ih]
    by_cases hk : k.isString f.key
    · obtain rfl := isString_iff.mp hk
      rw [if_pos hk, if_pos hk, find?_key hkeys hf]
      rfl
    · rw [if_neg hk, if_neg hk]

theorem lookup_respelled {f : Field} {es : List (Value × Value)} (hf : f ∈ r.fields es)
    (w : Place) : lookup f.key (respelledEntries chosen (r.fields es) w es) =
      (lookup f.key es).map (respelled chosen f.role (w.key f.key)) :=
  lookup_respelledEntries (Role.keys_nodup r es) hf w es

/-- Under the key of a field without expressions nothing is replaced. -/
theorem lookup_respelled_plain {f : Field} {es : List (Value × Value)} (hf : f ∈ r.fields es)
    (hplain : f.role.isPlain) (w : Place) :
    lookup f.key (respelledEntries chosen (r.fields es) w es) = lookup f.key es := by
  rw [lookup_respelled hf]
  cases lookup f.key es with
  | none => rfl
  | some v => exact congrArg some (respelled_plain v _ _ hplain)

/-! ## Reading what is replaced -/

/-- Of the strings that are replaced among these parts, none is empty. -/
def NamesChosen (chosen : Place → Bool) (ps : List Part) : Prop :=
  ∀ p ∈ ps, p.role.isExpression → chosen p.place → p.value ≠ some (.string "")

/-- A reader reads a value as before, if no empty string in it is chosen. -/
def Invariant {α : Type} (chosen : Place → Bool) (read : Place → Value → Loaded α) (r : Role)
    (v : Value) : Prop :=
  ∀ w, NamesChosen chosen (parts r w v) → read w (respelled chosen r w v) = read w v

section Fields

variable {α : Type} {read : Place → Value → Loaded α} {es : List (Value × Value)}

theorem NamesChosen.field {f : Field} {v : Value} (h : NamesChosen chosen (parts r w (.object es)))
    (hf : f ∈ r.fields es) (hv : lookup f.key es = some v) :
    NamesChosen chosen (parts f.role (w.key f.key) v) := by
  refine fun p hp => h p (List.mem_cons_of_mem _ (List.mem_flatMap.mpr ⟨f, hf, ?_⟩))
  rw [fieldParts_eq, hv]
  exact hp

theorem NamesChosen.items {s : Role} {vs : List Value}
    (h : NamesChosen chosen (parts r w (.list vs))) (hs : r.item? = some s) :
    NamesChosen chosen (itemParts s w 0 vs) := by
  intro p hp
  refine h p (parts_list r w vs ▸ List.mem_cons_of_mem _ ?_)
  rw [hs]
  exact hp

theorem NamesChosen.of_orNull {v : Value} (h : NamesChosen chosen (parts (.orNull r) w v)) :
    NamesChosen chosen (parts r w v) := by
  intro p hp
  have hself := h ⟨w, .orNull r, some v⟩ (by cases v <;> exact List.mem_cons_self)
  cases v with
  | object es =>
    obtain rfl | hp := List.mem_cons.mp hp
    · exact hself
    · exact h p (List.mem_cons_of_mem _ hp)
  | list vs =>
    obtain rfl | hp := List.mem_cons.mp hp
    · exact hself
    · exact h p (List.mem_cons_of_mem _ hp)
  | _ =>
    obtain rfl := List.mem_singleton.mp hp
    exact hself

theorem invariant_plain (h : r.isPlain) (v : Value) : Invariant chosen read r v :=
  fun w _ => by rw [respelled_plain v r w h]

theorem items_respelled {vs : List Value} (h : ∀ v ∈ vs, Invariant chosen read r v) {i : Nat}
    (hnames : NamesChosen chosen (itemParts r w i vs)) :
    items w read i (respelledItems chosen r w i vs) = items w read i vs := by
  induction vs generalizing i with
  | nil => rfl
  | cons v vs ih =>
    obtain ⟨hv, hvs⟩ := List.forall_mem_cons.mp h
    obtain ⟨hhere, hrest⟩ := List.forall_mem_append.mp hnames
    rw [respelledItems, items, items, hv _ hhere, ih hvs hrest]

theorem invariant_list {v : Value} (h : ∀ vs, v = .list vs → ∀ u ∈ vs, Invariant chosen read r u) :
    Invariant chosen (fun w => list w read) (.list r) v := by
  intro w hnames
  cases v with
  | list vs => exact items_respelled (h vs rfl) (hnames.items rfl)
  | _ => rfl

/-- What is made of a field is made of it again, if that is so of what stands there. -/
theorem field_respelled {β : Type} (g : Option Value → β) {f : Field} (hf : f ∈ r.fields es)
    (hnames : NamesChosen chosen (parts r w (.object es)))
    (h : ∀ v, lookup f.key es = some v → NamesChosen chosen (parts f.role (w.key f.key) v) →
      g (some (respelled chosen f.role (w.key f.key) v)) = g (some v)) :
    g (lookup f.key (respelledEntries chosen (r.fields es) w es)) = g (lookup f.key es) := by
  rw [lookup_respelled hf]
  cases hv : lookup f.key es with
  | none => rfl
  | some v => exact h v hv (hnames.field hf hv)

theorem nameAt_respelled {key : String} (hf : ⟨key, true, .name⟩ ∈ r.fields es) (w : Place) :
    nameAt w key (respelledEntries chosen (r.fields es) w es) = nameAt w key es := by
  rw [nameAt, nameAt, lookup_respelled_plain hf rfl]

theorem listAt_respelled {key : String} {s : Role} (hf : ⟨key, false, .list s⟩ ∈ r.fields es)
    (hnames : NamesChosen chosen (parts r w (.object es)))
    (h : ∀ v, Invariant chosen read s v) :
    listAt w key read (respelledEntries chosen (r.fields es) w es) = listAt w key read es := by
  have hat (es : List (Value × Value)) : listAt w key read es =
      (lookup key es).elim (.ok []) (list (w.key key) read) := by
    rw [listAt]
    cases lookup key es <;> rfl
  rw [hat, hat]
  exact field_respelled (fun v => v.elim _ _) hf hnames
    fun v _ => invariant_list (fun _ _ u _ => h u) (w.key key)

theorem respelled_ne_null {v : Value} (h : v ≠ .null) : respelled chosen r w v ≠ .null := by
  cases v with
  | string s =>
    rw [respelled]
    split <;> exact nofun
  | object es => exact nofun
  | list vs =>
    rw [respelled]
    split <;> exact nofun
  | _ => exact h

theorem optional_respelled {key : String} {s : Role} (hf : ⟨key, false, .orNull s⟩ ∈ r.fields es)
    (hnames : NamesChosen chosen (parts r w (.object es)))
    (h : ∀ v, Invariant chosen read s v) :
    optional (read (w.key key)) (lookup key (respelledEntries chosen (r.fields es) w es)) =
      optional (read (w.key key)) (lookup key es) := by
  have hsome {v : Value} (hv : v ≠ .null) :
      optional (read (w.key key)) (some v) = (read (w.key key) v).map some := by
    cases v with
    | null => exact absurd rfl hv
    | _ => rfl
  refine field_respelled _ hf hnames fun v _ hparts => ?_
  rw [respelled_orNull]
  by_cases hv : v = .null
  · subst hv
    rfl
  · rw [hsome (respelled_ne_null hv), hsome hv, h v _ hparts.of_orNull]

end Fields

/-! ## Expressions -/

/-- The object of a name is read as the name is. -/
theorem expression_plainReference {s : String} (h : s ≠ "") (w : Place) :
    expression w (plainReference s) = .ok (.reference s []) := by
  have hkind : HasKind [(.string "kind", .string "reference"), (.string "name", .string s)]
      ExprKind.reference.word := rfl
  rw [plainReference, expression_of_kind w hkind]
  have hname : nameAt w "name" [(.string "kind", .string "reference"), (.string "name", .string s)] =
      .ok s := name_eq_ok.mpr ⟨rfl, h⟩
  rw [hname]
  rfl

section Object

variable {es : List (Value × Value)}

theorem invariant_expression_object
    (ih : ∀ key v, lookup key es = some v → Invariant chosen expression .expression v)
    (ihItems : ∀ key vs, lookup key es = some (.list vs) →
      ∀ v ∈ vs, Invariant chosen expression .expression v) :
    Invariant chosen expression .expression (.object es) := by
  intro w hnames
  let es' := respelledEntries chosen (Role.fields es .expression) w es
  have hkind : lookup "kind" es' = lookup "kind" es :=
    lookup_respelled_plain (f := ⟨"kind", true, .expressionKind⟩) List.mem_cons_self rfl w
  have hat (key : String) (hf : ⟨key, true, .expression⟩ ∈ Role.fields es .expression) :
      expressionAt w key es' = expressionAt w key es := by
    rw [expressionAt_eq, expressionAt_eq]
    exact field_respelled (fun v => v.elim _ _) hf hnames fun v hv => ih key v hv (w.key key)
  have hlist (key : String) (required optional : Bool)
      (hf : ⟨key, required, .list .expression⟩ ∈ Role.fields es .expression) :
      expressionsAt w key optional es' = expressionsAt w key optional es := by
    rw [expressionsAt_eq, expressionsAt_eq]
    refine field_respelled (fun v => v.elim _ _) hf hnames fun v hv => ?_
    exact invariant_list (fun vs hvs => ihItems key vs (hvs ▸ hv)) (w.key key)
  change expression w (.object es') = expression w (.object es)
  cases hk : kindOf exprKinds (lookup "kind" es) with
  | none =>
    rw [expression, expression, hkind]
    simp only [hk]
  | some k =>
    have kind : HasKind es k.word := kindOf_exprKinds.mp hk
    have hmem {f : Field} (hf : f ∈ exprFields k) : f ∈ Role.fields es .expression :=
      List.mem_cons_of_mem _ (by rwa [kindFields_of_some hk])
    rw [expression_of_kind w (hkind.trans kind), expression_of_kind w kind]
    cases k with
    | array => simp only [hat "of" (hmem (by decide))]
    | dictionary => simp only [hat "key" (hmem (by decide)), hat "value" (hmem (by decide))]
    | singleKey => simp only [hat "value" (hmem (by decide))]
    | union => simp only [hlist "items" true false (hmem (by decide))]
    | implementation =>
      have hname : nameAt w "type" es' = nameAt w "type" es :=
        nameAt_respelled (hmem (by decide)) w
      simp only [hname, hlist "closedGenerics" false true (hmem (by decide))]
    | reference =>
      have hname : nameAt w "name" es' = nameAt w "name" es :=
        nameAt_respelled (hmem (by decide)) w
      simp only [hname, hlist "closedGenerics" false true (hmem (by decide))]

end Object

theorem invariant_expression (v : Value) : Invariant chosen expression .expression v := by
  induction v using Value.inductParts with
  | object es ih ihItems => exact invariant_expression_object ih ihItems
  | list vs ih => exact fun _ _ => rfl
  | other v hobject hlist =>
    intro w hnames
    cases v with
    | string s =>
      by_cases hw : chosen w
      · have hs : s ≠ "" := fun hs => hnames _ List.mem_cons_self rfl hw (by rw [hs])
        rw [respelled, if_pos (by simpa [Role.isExpression] using hw), expression_plainReference hs]
        rfl
      · rw [respelled, if_neg (by simpa [Role.isExpression] using hw)]
    | object es => exact absurd rfl (hobject es)
    | list vs => exact absurd rfl (hlist vs)
    | _ => rfl

/-! ## Members -/

theorem invariant_property (v : Value) : Invariant chosen property .property v := by
  intro w hnames
  cases v with
  | object es =>
    let es' := respelledEntries chosen (Role.fields es .property) w es
    have hname : nameAt w "name" es' = nameAt w "name" es := nameAt_respelled List.mem_cons_self w
    have htype : optional (expression (w.key "type")) (lookup "type" es') =
        optional (expression (w.key "type")) (lookup "type" es) :=
      optional_respelled (List.mem_cons_of_mem _ List.mem_cons_self) hnames invariant_expression
    have hnullable : lookup "nullable" es' = lookup "nullable" es :=
      lookup_respelled_plain (f := ⟨"nullable", false, .truth⟩)
        (List.mem_cons_of_mem _ (List.mem_cons_of_mem _ List.mem_cons_self)) rfl w
    rw [respelled, property, property, hname, htype, hnullable]
  | _ => rfl

theorem invariant_properties (v : Value) :
    Invariant chosen (fun w => list w property) (.list .property) v :=
  invariant_list fun _ _ u _ => invariant_property u

theorem invariant_body (v : Value) : Invariant chosen body .body v := by
  intro w hnames
  cases v with
  | object es =>
    have hparts : NamesChosen chosen (parts .expression w (.object es)) := by
      refine List.forall_mem_cons.mpr ⟨fun _ _ => nofun, fun p hp => ?_⟩
      exact hnames p (List.mem_cons_of_mem _ hp)
    exact congrArg (Except.map Body.type) (invariant_expression (.object es) w hparts)
  | list vs =>
    have hitems := items_respelled (fun v _ => invariant_property v) (hnames.items rfl)
    exact congrArg (Except.map Body.properties) hitems
  | string s =>
    have hparts : NamesChosen chosen (parts .expression w (.string s)) :=
      List.forall_mem_singleton.mpr (hnames ⟨w, .body, some (.string s)⟩ List.mem_cons_self)
    have hbody : body w (respelled chosen .body w (.string s)) =
        (expression w (respelled chosen .expression w (.string s))).map .type := by
      rw [respelled, respelled]
      by_cases h : chosen w <;> simp only [Role.isExpression, h] <;> rfl
    rw [hbody, invariant_expression _ w hparts]
    rfl
  | _ => rfl

/-! ## Definitions -/

section Definition

variable {es : List (Value × Value)}

theorem invariant_definition_object : Invariant chosen definition .definition (.object es) := by
  intro w hnames
  let es' := respelledEntries chosen (Role.fields es .definition) w es
  have hname : nameAt w "name" es' = nameAt w "name" es :=
    nameAt_respelled List.mem_cons_self w
  have hkind : lookup "kind" es' = lookup "kind" es :=
    lookup_respelled_plain (f := ⟨"kind", true, .definitionKind⟩)
      (List.mem_cons_of_mem _ List.mem_cons_self) rfl w
  change definition w (.object es') = definition w (.object es)
  cases hk : kindOf definitionKinds (lookup "kind" es) with
  | none =>
    rw [definition, definition, hkind, hname]
    simp only [hk]
  | some k =>
    have kind : HasKind es k.word := kindOf_definitionKinds.mp hk
    have hmem {f : Field} (hf : f ∈ definitionFields k) : f ∈ Role.fields es .definition :=
      List.mem_cons_of_mem _ (List.mem_cons_of_mem _ (by rwa [kindFields_of_some hk]))
    have hheader (hgenerics : ⟨"openGenerics", false, .list .name⟩ ∈ definitionFields k)
        (hinherits : ⟨"inherits", false, .list .expression⟩ ∈ definitionFields k) (name : String) :
        header w name es' = header w name es := by
      have hopen : listAt w "openGenerics" (fun w v => Loaded.name w (some v)) es' =
          listAt w "openGenerics" (fun w v => Loaded.name w (some v)) es :=
        listAt_respelled (hmem hgenerics) hnames fun v => invariant_plain rfl v
      have hancestors : expressionsAt w "inherits" true es' = expressionsAt w "inherits" true es := by
        rw [expressionsAt_eq, expressionsAt_eq]
        exact field_respelled (fun v => v.elim _ _) (hmem hinherits) hnames fun v _ =>
          invariant_list (fun _ _ u _ => invariant_expression u) (w.key "inherits")
      rw [header, header, hopen, hancestors]
    have hgroup (key : String)
        (hf : ⟨key, false, .orNull (.list .property)⟩ ∈ definitionFields k) :
        group w key es' = group w key es :=
      optional_respelled (hmem hf) hnames invariant_properties
    rw [definition_of_kind w (hkind.trans kind), definition_of_kind w kind, hname]
    refine bind_congr fun name => ?_
    cases k with
    | stringAlias => rfl
    | numberAlias => rfl
    | unionAlias =>
      have hwraps : expressionAt w "wraps" es' = expressionAt w "wraps" es := by
        rw [expressionAt_eq, expressionAt_eq]
        exact field_respelled (fun v => v.elim _ _) (hmem (f := ⟨"wraps", true, .expression⟩)
          (by decide)) hnames fun v _ => invariant_expression v (w.key "wraps")
      simp only [hwraps]
    | enumeration =>
      have hmembers : listAt w "members" member es' = listAt w "members" member es :=
        listAt_respelled (s := .member) (hmem (by decide)) hnames fun v => invariant_plain rfl v
      simp only [hmembers]
    | interface =>
      have hproperties : listAt w "properties" property es' = listAt w "properties" property es :=
        listAt_respelled (hmem (by decide)) hnames invariant_property
      simp only [hheader (by decide) (by decide), hproperties]
    | request =>
      have hbody : optional (body (w.key "body")) (lookup "body" es') =
          optional (body (w.key "body")) (lookup "body" es) :=
        optional_respelled (hmem (by decide)) hnames invariant_body
      simp only [hheader (by decide) (by decide), hgroup "path" (by decide),
        hgroup "queryParameters" (by decide), hbody]

theorem invariant_definition (v : Value) : Invariant chosen definition .definition v := by
  cases v with
  | object es => exact invariant_definition_object
  | _ => exact fun _ _ => rfl

end Definition

/-! ## The empty name

An empty string is an expression, and the object in its place has an empty name. -/

theorem fields_respelled (r : Role) (w : Place) (es : List (Value × Value)) :
    r.fields (respelledEntries chosen (r.fields es) w es) = r.fields es := by
  have kind {r k : Role} (hf : ⟨"kind", true, k⟩ ∈ r.fields es) (hplain : k.isPlain) :
      r.fields (respelledEntries chosen (r.fields es) w es) = r.fields es :=
    Role.fields_congr r (lookup_respelled_plain hf hplain w)
  induction r with
  | expression => exact kind List.mem_cons_self rfl
  | body => exact kind List.mem_cons_self rfl
  | definition => exact kind (List.mem_cons_of_mem _ List.mem_cons_self) rfl
  | orNull r ih => exact ih
  | _ => rfl

theorem Role.fields_of_isExpression (h : r.isExpression) (es : List (Value × Value)) :
    r.fields es = Role.fields es .expression := by
  induction r with
  | expression => rfl
  | body => rfl
  | orNull r ih => exact ih h
  | _ => nomatch h

/-- The object of an empty name has a fault. -/
theorem exists_fault_plainReference (h : r.isExpression) (w : Place) :
    ∃ q ∈ parts r w (plainReference ""), q.fault? ≠ none := by
  refine ⟨⟨w.key "name", .name, some (.string "")⟩, ?_, nofun⟩
  rw [plainReference, parts_object, Role.fields_of_isExpression h]
  exact List.mem_cons_of_mem _ (List.mem_cons_of_mem _ List.mem_cons_self)

/-- Of the strings that are replaced among these parts, one is empty. -/
def HasEmptyName (chosen : Place → Bool) (ps : List Part) : Prop :=
  ∃ p ∈ ps, p.role.isExpression ∧ chosen p.place ∧ p.value = some (.string "")

theorem hasEmptyName_of_not_namesChosen {ps : List Part} (h : ¬ NamesChosen chosen ps) :
    HasEmptyName chosen ps := by
  simpa only [HasEmptyName, NamesChosen, not_forall, not_not, exists_prop] using h

theorem exists_fault_items {vs : List Value} (i : Nat)
    (ih : ∀ v ∈ vs, ∀ w, HasEmptyName chosen (parts r w v) →
      ∃ q ∈ parts r w (respelled chosen r w v), q.fault? ≠ none)
    (h : HasEmptyName chosen (itemParts r w i vs)) :
    ∃ q ∈ itemParts r w i (respelledItems chosen r w i vs), q.fault? ≠ none := by
  induction vs generalizing i with
  | nil =>
    obtain ⟨p, hp, -⟩ := h
    nomatch hp
  | cons v vs ihvs =>
    obtain ⟨hv, hvs⟩ := List.forall_mem_cons.mp ih
    obtain ⟨p, hp, hempty⟩ := h
    obtain hp | hp := List.mem_append.mp hp
    · obtain ⟨q, hq, hfault⟩ := hv _ ⟨p, hp, hempty⟩
      exact ⟨q, List.mem_append_left _ hq, hfault⟩
    · obtain ⟨q, hq, hfault⟩ := ihvs (i + 1) hvs ⟨p, hp, hempty⟩
      exact ⟨q, List.mem_append_right _ hq, hfault⟩

/-- **A chosen empty string leaves a fault.** -/
theorem exists_fault_of_chosen {v : Value} (h : HasEmptyName chosen (parts r w v)) :
    ∃ q ∈ parts r w (respelled chosen r w v), q.fault? ≠ none := by
  induction v using Value.inductParts generalizing r w with
  | object es ih ihItems =>
    obtain ⟨p, hp, hempty⟩ := h
    obtain rfl | hp := List.mem_cons.mp (parts_object r w es ▸ hp)
    · nomatch hempty.2.2
    obtain ⟨f, hf, hp⟩ := List.mem_flatMap.mp hp
    obtain ⟨-, -, rfl⟩ | ⟨v, hv, hp⟩ := mem_fieldParts hp
    · nomatch hempty.2.2
    obtain ⟨q, hq, hfault⟩ := ih f.key v hv ⟨p, hp, hempty⟩
    refine ⟨q, ?_, hfault⟩
    rw [respelled, parts_object, fields_respelled]
    refine List.mem_cons_of_mem _ (List.mem_flatMap.mpr ⟨f, hf, ?_⟩)
    rw [fieldParts_eq, lookup_respelled hf, hv]
    exact hq
  | list vs ih =>
    obtain ⟨p, hp, hempty⟩ := h
    obtain rfl | hp := List.mem_cons.mp (parts_list r w vs ▸ hp)
    · nomatch hempty.2.2
    cases hs : r.item? with
    | none =>
      rw [hs] at hp
      nomatch hp
    | some s =>
      rw [hs] at hp
      obtain ⟨q, hq, hfault⟩ := exists_fault_items 0 (fun v hv w => ih v hv) ⟨p, hp, hempty⟩
      refine ⟨q, ?_, hfault⟩
      rw [respelled, hs, parts_list, hs]
      exact List.mem_cons_of_mem _ hq
  | other v hobject hlist =>
    obtain ⟨p, hp, hrole, hplace, hvalue⟩ := h
    rw [parts_other hobject hlist, List.mem_singleton] at hp
    subst hp
    obtain rfl := Option.some.inj hvalue
    rw [respelled, if_pos (by simp only [hrole, hplace, Bool.and_self])]
    exact exists_fault_plainReference hrole w

/-! ## Documents -/

/-- Two readings have the same outcome: the same result, or both are refused. -/
def SameOutcome {α : Type} (x y : Loaded α) : Prop :=
  (∃ a, x = .ok a ∧ y = .ok a) ∨ ∃ d e, x = .error d ∧ y = .error e

/-- No empty string is chosen in a document. -/
def NamesChosenIn (chosen : Place → Bool) (entries : List (Value × Value)) : Prop :=
  ∀ vs, lookup "types" entries = some (.list vs) → NamesChosen chosen (reading vs)

theorem lookup_respelledDocument (chosen : Place → Bool) (entries : List (Value × Value)) :
    lookup "types" (respelledDocument chosen entries) =
      (lookup "types" entries).map (respelled chosen (.list .definition) {}) := by
  induction entries with
  | nil => rfl
  | cons entry rest ih =>
    obtain ⟨k, v⟩ := entry
    change lookup "types" ((k, _) :: respelledDocument chosen rest) = _
    rw [lookup, lookup, ih]
    split <;> rfl

theorem lookup_respelledDocument_list (chosen : Place → Bool) {entries : List (Value × Value)}
    {vs : List Value}
    (h : lookup "types" entries = some (.list vs)) :
    lookup "types" (respelledDocument chosen entries) =
      some (.list (respelledItems chosen .definition {} 0 vs)) := by
  rw [lookup_respelledDocument, h]
  rfl

theorem ofDocument_respelled_of_names {entries : List (Value × Value)}
    (h : NamesChosenIn chosen entries) :
    Catalog.ofDocument (respelledDocument chosen entries) = Catalog.ofDocument entries := by
  rw [Catalog.ofDocument, Catalog.ofDocument, lookup_respelledDocument]
  cases htypes : lookup "types" entries with
  | none => rfl
  | some v =>
    cases v with
    | list vs => exact items_respelled (fun v _ => invariant_definition v) ((h vs htypes).items rfl)
    | _ => rfl

theorem ofDocument_respelled_of_empty {entries : List (Value × Value)}
    (h : ¬ NamesChosenIn chosen entries) :
    ∃ e, Catalog.ofDocument (respelledDocument chosen entries) = .error e := by
  obtain ⟨vs, h⟩ := not_forall.mp h
  obtain ⟨htypes, hnames⟩ := Classical.not_imp.mp h
  obtain ⟨q, hq, hfault⟩ := exists_fault_of_chosen (hasEmptyName_of_not_namesChosen hnames)
  have hfollows := follows_reading (lookup_respelledDocument_list chosen htypes)
  cases hread : Catalog.ofDocument (respelledDocument chosen entries) with
  | error e => exact ⟨e, rfl⟩
  | ok c =>
    rw [Follows, hread] at hfollows
    exact absurd (List.findSome?_eq_none_iff.mp hfollows.symm q hq) hfault

/-- **A type by its name alone and the object of that name are read alike, unless the name is
empty.**  With no empty string among the chosen ones the result is the very same; with one, the
outcome is the same only if the document is refused anyway. -/
theorem ofDocument_respelled (chosen : Place → Bool) (entries : List (Value × Value)) :
    (NamesChosenIn chosen entries →
      Catalog.ofDocument (respelledDocument chosen entries) = Catalog.ofDocument entries) ∧
    (SameOutcome (Catalog.ofDocument entries)
        (Catalog.ofDocument (respelledDocument chosen entries)) ↔
      NamesChosenIn chosen entries ∨ ∃ e, Catalog.ofDocument entries = .error e) := by
  refine ⟨ofDocument_respelled_of_names, fun h => ?_, fun h => ?_⟩
  · by_contra hneither
    obtain ⟨hempty, hloaded⟩ := not_or.mp hneither
    obtain ⟨e, he⟩ := ofDocument_respelled_of_empty hempty
    obtain ⟨c, -, hc⟩ | ⟨d, -, hd, -⟩ := h
    · exact nomatch he.symm.trans hc
    · exact hloaded ⟨d, hd⟩
  · by_cases hnames : NamesChosenIn chosen entries
    · rw [ofDocument_respelled_of_names hnames]
      cases Catalog.ofDocument entries with
      | ok c => exact .inl ⟨c, rfl, rfl⟩
      | error e => exact .inr ⟨e, e, rfl, rfl⟩
    · obtain ⟨d, hd⟩ := h.resolve_left hnames
      obtain ⟨e, he⟩ := ofDocument_respelled_of_empty hnames
      exact .inr ⟨d, e, hd, he⟩

/-- The document of an alias of an array. -/
def hitsDocument : List (Value × Value) :=
  [(.string "types", .list [.object [(.string "kind", .string "union_alias"),
    (.string "name", .string "Hits"), (.string "wraps", .object
      [(.string "kind", .string "array_of"), (.string "of", .string "Hit")])]])]

/-- The element of the array may as well be written as an object. -/
theorem hitsDocument_respelled : NamesChosenIn (fun _ => true) hitsDocument ∧
    Catalog.ofDocument (respelledDocument (fun _ => true) hitsDocument) =
      Catalog.ofDocument hitsDocument := by
  have names : NamesChosenIn (fun _ => true) hitsDocument := by
    rintro vs ⟨⟩ p hp
    -- There are seven parts, and no string among them is empty.
    rcases hp with _ | ⟨_, _ | ⟨_, _ | ⟨_, _ | ⟨_, _ | ⟨_, _ | ⟨_, _ | ⟨_, ⟨⟩⟩⟩⟩⟩⟩⟩⟩
    all_goals exact fun _ _ h => by simp at h
  exact ⟨names, (ofDocument_respelled _ _).1 names⟩

/-- An alias of the type with the empty name is a catalog, but not with that name in an object. -/
theorem empty_name_not_respelled :
    let entries := [(.string "types", .list [.object [(.string "kind", .string "union_alias"),
      (.string "name", .string "A"), (.string "wraps", .string "")]])]
    ¬ SameOutcome (Catalog.ofDocument entries)
      (Catalog.ofDocument (respelledDocument (fun _ => true) entries)) := by
  rintro entries (⟨c, -, ⟨⟩⟩ | ⟨d, -, ⟨⟩, -⟩)

end TypeCatalog.Document
