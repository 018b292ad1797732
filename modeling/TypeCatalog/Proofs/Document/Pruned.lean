import TypeCatalog.Proofs.Document.Acceptance
import TypeCatalog.Proofs.Document.Site

/-!
# Proofs/Document/Pruned — what is read of a document

`pruned r v` is what is left of a value that is read as `r` when everything is taken away that is
not read: of an object its fields stay, in the order of their reading; of a list its items, if they
are read; and of a kind that is an object or a list only that it is one.  Pruning commutes with
`parts` (`parts_pruned`), so the faults of a document are those of its pruned one, apart from the
text of a kind that is not known; and a value is pruned to one of the same catalog
(`IsCatalog.pruned`).
-/

namespace TypeCatalog.Document

open Value Loaded Place

/-! ## Pruning -/

mutual
/-- What is read of a value of a role. -/
def pruned (r : Role) : Value → Value
  | .object es => .object ((r.fields es).flatMap fun f => prunedField f es)
  | .list vs => .list (match r.item? with
      | some s => prunedItems s vs
      | none => [])
  | .pair _ _ => .pair .null .null
  | v => v

/-- The entry that is read of a field. -/
def prunedField (f : Field) : List (Value × Value) → List (Value × Value)
  | [] => []
  | (k, v) :: rest =>
    if k.isString f.key then [(.string f.key, pruned f.role v)] else prunedField f rest

/-- What is read of items. -/
def prunedItems (r : Role) : List Value → List Value
  | [] => []
  | v :: rest => pruned r v :: prunedItems r rest
end

/-- What is read of the entries of an object. -/
def prunedEntries (fs : List Field) (es : List (Value × Value)) : List (Value × Value) :=
  fs.flatMap fun f => prunedField f es

variable {r s : Role} {es es' : List (Value × Value)}

theorem pruned_object (r : Role) (es : List (Value × Value)) :
    pruned r (.object es) = .object (prunedEntries (r.fields es) es) := rfl

theorem pruned_list (r : Role) (vs : List Value) :
    pruned r (.list vs) = .list (r.item?.elim [] (prunedItems · vs)) := by
  rw [pruned]
  cases r.item? <;> rfl

theorem prunedItems_eq_map (r : Role) (vs : List Value) : prunedItems r vs = vs.map (pruned r) := by
  induction vs with
  | nil => rfl
  | cons v rest ih => rw [prunedItems, ih, List.map_cons]

/-- A field is pruned to its value, if it is there. -/
theorem prunedField_eq (f : Field) (es : List (Value × Value)) :
    prunedField f es =
      (lookup f.key es).elim [] fun v => [(.string f.key, pruned f.role v)] := by
  induction es with
  | nil => rfl
  | cons entry rest ih =>
    rw [prunedField, lookup, ih]
    split <;> rfl

/-- A part that may be null is pruned as it would be if it might not. -/
theorem pruned_orNull (r : Role) (v : Value) : pruned (.orNull r) v = pruned r v := by
  cases v <;> rfl

/-- A value is pruned to a string only if it is that string. -/
theorem pruned_eq_string {v : Value} {t : String} : pruned r v = .string t ↔ v = .string t := by
  cases v <;> simp [pruned]

/-- Only null is pruned to null. -/
theorem pruned_eq_null {v : Value} : pruned r v = .null ↔ v = .null := by
  cases v <;> simp [pruned]

/-! ## What is found in a pruned object -/

theorem lookup_append (key : String) (es es' : List (Value × Value)) :
    lookup key (es ++ es') = (lookup key es).or (lookup key es') := by
  induction es with
  | nil => rfl
  | cons entry rest ih =>
    rw [List.cons_append, lookup, lookup, ih]
    split <;> rfl

/-- A field is found under its own key, and under no other. -/
theorem lookup_prunedField (f : Field) (key : String) (es : List (Value × Value)) :
    lookup key (prunedField f es) =
      if (Value.string key).isString f.key then (lookup key es).map (pruned f.role) else none := by
  rw [prunedField_eq]
  split
  · next hkey =>
    obtain rfl := Value.string.inj (isString_iff.mp hkey)
    cases lookup f.key es <;> simp [lookup, isString]
  · next hkey =>
    have hne : f.key ≠ key := by
      rintro rfl
      exact hkey (isString_iff.mpr rfl)
    cases lookup f.key es <;> simp [lookup, isString, hne]

/-- Under a key stands what is read of what stood there, if the key is that of a field. -/
theorem lookup_prunedEntries (fs : List Field) (key : String) (es : List (Value × Value)) :
    lookup key (prunedEntries fs es) =
      (fs.find? fun f => (Value.string key).isString f.key).bind fun f =>
        (lookup key es).map (pruned f.role) := by
  induction fs with
  | nil => rfl
  | cons f fs ih =>
    have hcons : prunedEntries (f :: fs) es = prunedField f es ++ prunedEntries fs es :=
      List.flatMap_cons
    rw [hcons, lookup_append, lookup_prunedField, ih]
    by_cases hkey : (Value.string key).isString f.key
    · rw [if_pos hkey, List.find?_cons_of_pos (by exact hkey)]
      cases lookup key es <;> simp
    · rw [if_neg hkey, List.find?_cons_of_neg (by exact hkey), Option.none_or]

theorem lookup_pruned_of_mem {fs : List Field} (hkeys : (fs.map Field.key).Nodup) {f : Field}
    (hf : f ∈ fs) (es : List (Value × Value)) :
    lookup f.key (prunedEntries fs es) = (lookup f.key es).map (pruned f.role) := by
  rw [lookup_prunedEntries, find?_key hkeys hf, Option.bind_some]

/-- **What is under a key that is read is pruned as its field says.** -/
theorem lookup_pruned {f : Field} (hf : f ∈ r.fields es) :
    lookup f.key (prunedEntries (r.fields es) es) = (lookup f.key es).map (pruned f.role) :=
  lookup_pruned_of_mem (r.keys_nodup es) hf es

/-! ## Kinds -/

/-- A kind that is no string is not known. -/
theorem kindOf_congr {α : Type} (words : List (String × α)) {v v' : Option Value}
    (h : ∀ t, v = some (.string t) ↔ v' = some (.string t)) : kindOf words v = kindOf words v' := by
  have hnone {u : Option Value} (hu : ∀ t, u ≠ some (.string t)) : kindOf words u = none := by
    rw [kindOf]
    exact hu
  by_cases hv : ∃ t, v = some (.string t)
  · obtain ⟨t, rfl⟩ := hv
    rw [(h t).mp rfl]
  · have hv : ∀ t, v ≠ some (.string t) := fun t ht => hv ⟨t, ht⟩
    rw [hnone hv, hnone fun t ht => hv t ((h t).mpr ht)]

/-- The fields of an object depend on the word of its kind alone, if it has a kind. -/
theorem Role.fields_congr_of_word
    (h : ∀ k, ⟨"kind", true, k⟩ ∈ r.fields es →
      ∀ t, lookup "kind" es = some (.string t) ↔ lookup "kind" es' = some (.string t)) :
    r.fields es = r.fields es' := by
  induction r with
  | orNull r ih => exact ih h
  | expression => simp only [fields, kindFields, kindOf_congr _ (h _ List.mem_cons_self)]
  | body => simp only [fields, kindFields, kindOf_congr _ (h _ List.mem_cons_self)]
  | definition =>
    simp only [fields, kindFields, kindOf_congr _ (h _ (List.mem_cons_of_mem _ List.mem_cons_self))]
  | _ => rfl

/-- Only a string is pruned to a string, and to itself. -/
theorem map_pruned_eq_string {v : Option Value} {t : String} :
    v.map (pruned r) = some (.string t) ↔ v = some (.string t) := by
  cases v <;> simp [pruned_eq_string]

/-- A pruned object has the same fields. -/
theorem fields_pruned (r : Role) (es : List (Value × Value)) :
    r.fields (prunedEntries (r.fields es) es) = r.fields es := by
  refine (Role.fields_congr_of_word fun k hk t => ?_).symm
  rw [lookup_pruned (f := ⟨"kind", true, k⟩) hk, map_pruned_eq_string]

/-- Objects of which the same is read have the same fields. -/
theorem Role.fields_congr_of_read
    (h : ∀ f ∈ r.fields es, (lookup f.key es).map (pruned f.role) =
      (lookup f.key es').map (pruned f.role)) : r.fields es = r.fields es' :=
  fields_congr_of_word fun k hk t => by
    rw [← map_pruned_eq_string (r := k), h _ hk, map_pruned_eq_string]

/-- Entries under which the same is read are pruned alike. -/
theorem prunedEntries_congr {fs : List Field}
    (h : ∀ f ∈ fs, (lookup f.key es).map (pruned f.role) = (lookup f.key es').map (pruned f.role)) :
    prunedEntries fs es = prunedEntries fs es' := by
  refine List.flatMap_congr fun f hf => ?_
  have hread := h f hf
  rw [prunedField_eq, prunedField_eq]
  cases hv : lookup f.key es with
  | none =>
    rw [hv, Option.map_none, eq_comm, Option.map_eq_none_iff] at hread
    rw [hread]
  | some v =>
    rw [hv, Option.map_some, eq_comm, Option.map_eq_some_iff] at hread
    obtain ⟨v', hv', heq⟩ := hread
    rw [hv', Option.elim_some, Option.elim_some, heq]

/-- An object is pruned by what stands under the keys that are read. -/
theorem pruned_object_congr
    (h : ∀ f ∈ r.fields es, (lookup f.key es).map (pruned f.role) =
      (lookup f.key es').map (pruned f.role)) : pruned r (.object es) = pruned r (.object es') := by
  rw [pruned_object, pruned_object, ← Role.fields_congr_of_read h, prunedEntries_congr h]

/-! ## Parts -/

/-- A part of which only what is read is left. -/
def Part.pruned (p : Part) : Part := { p with value := p.value.map (Document.pruned p.role) }

/-- The parts of a field that is pruned are the pruned parts of the field. -/
theorem fieldParts_pruned {f : Field} {w : Place} (hf : f ∈ r.fields es)
    (ih : ∀ v, lookup f.key es = some v → parts f.role (w.key f.key) (pruned f.role v) =
      (parts f.role (w.key f.key) v).map Part.pruned) :
    fieldParts f w (prunedEntries (r.fields es) es) = (fieldParts f w es).map Part.pruned := by
  rw [fieldParts_eq, fieldParts_eq, lookup_pruned hf]
  cases hv : lookup f.key es with
  | none => cases f.required <;> rfl
  | some v => exact ih v hv

/-- The parts of items that are pruned are the pruned parts of the items. -/
theorem itemParts_pruned {w : Place} {vs : List Value} (i : Nat)
    (ih : ∀ v ∈ vs, ∀ w, parts s w (pruned s v) = (parts s w v).map Part.pruned) :
    itemParts s w i (prunedItems s vs) = (itemParts s w i vs).map Part.pruned := by
  induction vs generalizing i with
  | nil => rfl
  | cons v vs ihvs =>
    obtain ⟨hv, hvs⟩ := List.forall_mem_cons.mp ih
    rw [prunedItems, itemParts, itemParts, List.map_append, hv, ihvs (i + 1) hvs]

/-- **The parts of a pruned value are the pruned parts.** -/
theorem parts_pruned (r : Role) (w : Place) (v : Value) :
    parts r w (pruned r v) = (parts r w v).map Part.pruned := by
  induction v using Value.inductParts generalizing r w with
  | object es ih ihItems =>
    rw [pruned_object, parts_object, parts_object, fields_pruned, List.map_cons, List.map_flatMap]
    refine congrArg₂ List.cons rfl (List.flatMap_congr fun f hf => ?_)
    exact fieldParts_pruned hf fun v hv => ih f.key v hv f.role (w.key f.key)
  | list vs ih =>
    rw [pruned_list, parts_list, parts_list, List.map_cons]
    refine congrArg₂ List.cons (by rw [Part.pruned, Option.map_some, pruned_list]) ?_
    cases r.item? with
    | none => rfl
    | some s => exact itemParts_pruned 0 fun v hv w => ih v hv s w
  | other v hobject hlist =>
    cases v with
    | object es => exact absurd rfl (hobject es)
    | list vs => exact absurd rfl (hlist vs)
    | _ => rfl

/-! ## Faults

Whether there is a fault does not depend on what is pruned, and what is reported depends on it only
for a kind that is told. -/

/-- A pruned value is accepted in the role that the whole value is accepted in. -/
theorem accepts_pruned (r s : Role) (v : Option Value) :
    s.accepts (v.map (pruned r)) = s.accepts v := by
  cases v with
  | none => rfl
  | some v =>
    induction s with
    | orNull s ih => cases v <;> first | rfl | exact ih
    | _ => cases v <;> rfl

/-- A pruned value is refused for the same defect, but for the text of a kind. -/
theorem refusal_pruned (hs : s.ofKind = false) (r : Role) (w : Place) (v : Option Value) :
    s.refusal w (v.map (pruned r)) = s.refusal w v := by
  induction s with
  | orNull s ih => exact ih hs
  | representation =>
    cases v with
    | none => rfl
    | some v => cases v <;> rfl
  | expressionKind => nomatch hs
  | definitionKind => nomatch hs
  | _ => rfl

/-- A part has a fault exactly if its pruned part has one. -/
theorem Part.isSome_fault?_pruned (p : Part) : p.pruned.fault?.isSome = p.fault?.isSome := by
  rw [fault?, fault?, Part.pruned, accepts_pruned]
  split <;> rfl

theorem Part.fault?_pruned {p : Part} (h : p.role.ofKind = false) : p.pruned.fault? = p.fault? := by
  rw [fault?, fault?, Part.pruned, accepts_pruned, refusal_pruned h]

/-! ## Catalogs -/

/-- A value stays what it is when it is pruned. -/
def Survives {α : Type} (is : Value → α → Prop) (r : Role) (v : Value) : Prop :=
  ∀ a, is v a → is (pruned r v) a

section Survives

variable {α : Type} {is : Value → α → Prop}

theorem forall₂_prunedItems {vs : List Value} {as : List α} (h : ∀ v ∈ vs, Survives is r v)
    (has : List.Forall₂ is vs as) : List.Forall₂ is (prunedItems r vs) as := by
  induction has with
  | nil => exact .nil
  | cons head _ ih =>
    obtain ⟨hhead, hrest⟩ := List.forall_mem_cons.mp h
    exact .cons (hhead _ head) (ih hrest)

/-- A list survives pruning if its items do. -/
theorem survives_list (h : ∀ v, Survives is r v) (v : Value) :
    Survives (IsList is) (.list r) v := by
  rintro as ⟨vs, rfl, has⟩
  exact ⟨prunedItems r vs, rfl, forall₂_prunedItems (fun v _ => h v) has⟩

/-! What stands under the key of a field stays what it is. -/

variable {key : String} {b : Bool}

theorem lookup_pruned_of_some (hf : ⟨key, b, s⟩ ∈ r.fields es) {v : Value}
    (hv : lookup key es = some v) :
    lookup key (prunedEntries (r.fields es) es) = some (pruned s v) := by
  rw [lookup_pruned (f := ⟨key, b, s⟩) hf, hv, Option.map_some]

/-- A kind survives pruning. -/
theorem hasKind_pruned (hf : ⟨"kind", b, s⟩ ∈ r.fields es) {word : String} (h : HasKind es word) :
    HasKind (prunedEntries (r.fields es) es) word :=
  lookup_pruned_of_some hf h

theorem isName_pruned (hf : ⟨key, b, s⟩ ∈ r.fields es) {name : String}
    (h : IsName (lookup key es) name) :
    IsName (lookup key (prunedEntries (r.fields es) es)) name :=
  ⟨lookup_pruned_of_some hf h.1, h.2⟩

theorem getD_pruned (hf : ⟨key, b, s⟩ ∈ r.fields es) {v : Value} (hv : pruned s v = v) :
    (lookup key (prunedEntries (r.fields es) es)).getD v = pruned s ((lookup key es).getD v) := by
  rw [lookup_pruned (f := ⟨key, b, s⟩) hf, ← Option.getD_map (pruned s), hv]

theorem listUnder_pruned (hf : ⟨key, b, .list s⟩ ∈ r.fields es) :
    listUnder key (prunedEntries (r.fields es) es) = pruned (.list s) (listUnder key es) :=
  getD_pruned hf rfl

/-- A list under a key that is read survives pruning, also if it is absent. -/
theorem isList_pruned (hf : ⟨key, b, .list s⟩ ∈ r.fields es) (his : ∀ v, Survives is s v)
    {as : List α} (h : IsList is (listUnder key es) as) :
    IsList is (listUnder key (prunedEntries (r.fields es) es)) as :=
  listUnder_pruned hf ▸ survives_list his _ as h

/-- A part that may be absent survives pruning. -/
theorem orNone_pruned (hf : ⟨key, b, .orNull s⟩ ∈ r.fields es) (his : ∀ v, Survives is s v)
    {o : Option α} (h : OrNone is (lookup key es) o) :
    OrNone is (lookup key (prunedEntries (r.fields es) es)) o := by
  rw [lookup_pruned (f := ⟨key, b, .orNull s⟩) hf]
  generalize lookup key es = v at h ⊢
  cases h with
  | absent => exact .absent
  | null => exact .null
  | @present v a hv ha =>
    rw [Option.map_some, pruned_orNull]
    exact .present (mt pruned_eq_null.mp hv) (his v a ha)

end Survives

/-! ### Expressions -/

theorem mem_expression_fields {k : ExprKind} (hk : HasKind es k.word) {f : Field}
    (hf : f ∈ exprFields k) : f ∈ Role.fields es .expression := by
  rw [Role.fields, kindFields_of_some (kindOf_exprKinds.mpr hk)]
  exact List.mem_cons_of_mem _ hf

/-- Expressions survive pruning: one case for each rule of the grammar. -/
theorem survives_expression (v : Value) : Survives IsExpr .expression v := by
  intro e he
  induction v using Value.inductParts generalizing e with
  | object es ih ihItems =>
    have kind {word : String} : HasKind es word →
        HasKind (prunedEntries (Role.fields es .expression) es) word :=
      hasKind_pruned List.mem_cons_self
    have generics {vs : List Value} {exprs : List TypeExpr}
        (hvs : listUnder "closedGenerics" es = .list vs) (hexprs : List.Forall₂ IsExpr vs exprs) :
        List.Forall₂ IsExpr (prunedItems .expression vs) exprs :=
      forall₂_prunedItems (fun v hv => ihItems _ vs (lookup_of_listUnder hvs hv) v hv) hexprs
    rw [pruned_object]
    cases he with
    | array hk hv he =>
      have hfield := @mem_expression_fields es .array hk
      exact .array (kind hk) (lookup_pruned_of_some (hfield (.head _)) hv) (ih _ _ hv _ he)
    | dictionary hk hu hkey hv he =>
      have hfield := @mem_expression_fields es .dictionary hk
      exact .dictionary (kind hk) (lookup_pruned_of_some (hfield (.head _)) hu)
        (ih _ _ hu _ hkey) (lookup_pruned_of_some (hfield (.tail _ (.head _))) hv) (ih _ _ hv _ he)
    | singleKey hk hv he =>
      have hfield := @mem_expression_fields es .singleKey hk
      exact .singleKey (kind hk) (lookup_pruned_of_some (hfield (.head _)) hv) (ih _ _ hv _ he)
    | union hk hvs hitems =>
      have hfield := @mem_expression_fields es .union hk
      exact .union (kind hk) (lookup_pruned_of_some (hfield (.head _)) hvs)
        (forall₂_prunedItems (ihItems _ _ hvs) hitems)
    | implementation hk hname hvs hgenerics =>
      have hfield := @mem_expression_fields es .implementation hk
      exact .implementation (kind hk) (isName_pruned (hfield (.head _)) hname)
        ((listUnder_pruned (hfield (.tail _ (.head _)))).trans (congrArg _ hvs))
        (generics hvs hgenerics)
    | reference hk hname hvs hgenerics =>
      have hfield := @mem_expression_fields es .reference hk
      exact .reference (kind hk) (isName_pruned (hfield (.head _)) hname)
        ((listUnder_pruned (hfield (.tail _ (.head _)))).trans (congrArg _ hvs))
        (generics hvs hgenerics)
  | list vs ih => nomatch he
  | other v hobject hlist =>
    cases he with
    | bare s => exact .bare s
    | _ => exact absurd rfl (hobject _)

/-! ### Members -/

/-- Members of interfaces survive pruning. -/
theorem survives_property (v : Value) : Survives IsProperty .property v := by
  rintro q ⟨es, rfl, hname, htype, hnullable⟩
  have hfield (f : Field) (hf : f ∈ Role.fields [] .property) : f ∈ Role.fields es .property := hf
  refine ⟨_, pruned_object .property es, isName_pruned (hfield _ (.head _)) hname,
    orNone_pruned (hfield _ (.tail _ (.head _))) survives_expression htype, ?_⟩
  rw [getD_pruned (hfield _ (.tail _ (.tail _ (.head _)))) rfl, hnullable]
  rfl

theorem survives_properties (v : Value) : Survives (IsList IsProperty) (.list .property) v :=
  survives_list survives_property v

theorem survives_representation (v : Value) : Survives IsRepresentation .representation v := by
  intro t h
  cases h with
  | string t => exact .string t
  | bool b => exact .bool b
  | int h => exact .int h
  | float x => exact .float x

/-- Members of enumerations survive pruning. -/
theorem survives_member (v : Value) : Survives IsMember .member v := by
  rintro m ⟨es, rfl, hname, ht⟩
  have hfield (f : Field) (hf : f ∈ Role.fields [] .member) : f ∈ Role.fields es .member := hf
  refine ⟨_, pruned_object .member es, isName_pruned (hfield _ (.head _)) hname, ?_⟩
  rw [getD_pruned (hfield _ (.tail _ (.head _))) rfl]
  exact survives_representation _ _ ht

/-- Bodies survive pruning. -/
theorem survives_body (v : Value) : Survives IsBody .body v := by
  intro body h
  cases h with
  | properties hqs =>
    obtain ⟨vs, rfl, hqs⟩ := hqs
    exact .properties (survives_properties (.list vs) _ ⟨vs, rfl, hqs⟩)
  | type he =>
    have hpruned : pruned .body v = pruned .expression v := by cases he <;> rfl
    exact .type (hpruned ▸ survives_expression v _ he)

/-! ### Definitions -/

theorem mem_definition_fields {k : DefinitionKind} (hk : HasKind es k.word) {f : Field}
    (hf : f ∈ definitionFields k) : f ∈ Role.fields es .definition := by
  rw [Role.fields, kindFields_of_some (kindOf_definitionKinds.mpr hk)]
  exact List.mem_cons_of_mem _ (List.mem_cons_of_mem _ hf)

theorem survives_name (v : Value) : Survives (fun v => IsName (some v)) .name v := by
  rintro s ⟨hv, hs⟩
  obtain rfl := Option.some.inj hv
  exact ⟨rfl, hs⟩

/-- What an interface and a request have before their members stays what it is. -/
theorem isHeader_pruned {h : Header} (hes : IsHeader es h)
    (hgenerics : ⟨"openGenerics", false, .list .name⟩ ∈ Role.fields es .definition)
    (hinherits : ⟨"inherits", false, .list .expression⟩ ∈ Role.fields es .definition) :
    IsHeader (prunedEntries (Role.fields es .definition) es) h :=
  ⟨isName_pruned List.mem_cons_self hes.1, isList_pruned hgenerics survives_name hes.2.1,
    isList_pruned hinherits survives_expression hes.2.2⟩

/-- **Definitions survive pruning.** -/
theorem survives_definition (v : Value) : Survives IsDefinition .definition v := by
  intro d hd
  cases v with
  | object es =>
    have kind {word : String} : HasKind es word →
        HasKind (prunedEntries (Role.fields es .definition) es) word :=
      hasKind_pruned (List.mem_cons_of_mem _ List.mem_cons_self)
    have name {name : String} : IsName (lookup "name" es) name →
        IsName (lookup "name" (prunedEntries (Role.fields es .definition) es)) name :=
      isName_pruned List.mem_cons_self
    rw [pruned_object]
    cases hd with
    | stringAlias hk hname => exact .stringAlias (kind hk) (name hname)
    | numberAlias hk hname => exact .numberAlias (kind hk) (name hname)
    | unionAlias hk hname hv he =>
      have hfield := @mem_definition_fields es .unionAlias hk
      exact .unionAlias (kind hk) (name hname) (lookup_pruned_of_some (hfield (.head _)) hv)
        (survives_expression _ _ he)
    | enumeration hk hname hmembers =>
      have hfield := @mem_definition_fields es .enumeration hk
      exact .enumeration (kind hk) (name hname)
        (isList_pruned (hfield (.head _)) survives_member hmembers)
    | interface hk hheader hproperties =>
      have hfield := @mem_definition_fields es .interface hk
      exact .interface (kind hk)
        (isHeader_pruned hheader (hfield (.head _)) (hfield (.tail _ (.head _))))
        (isList_pruned (hfield (.tail _ (.tail _ (.head _)))) survives_property hproperties)
    | request hk hheader hpath hquery hbody =>
      have hfield := @mem_definition_fields es .request hk
      have hpathField := hfield (.tail _ (.tail _ (.head _)))
      have hqueryField := hfield (.tail _ (.tail _ (.tail _ (.head _))))
      have hbodyField := hfield (.tail _ (.tail _ (.tail _ (.tail _ (.head _)))))
      exact .request (kind hk)
        (isHeader_pruned hheader (hfield (.head _)) (hfield (.tail _ (.head _))))
        (orNone_pruned hpathField survives_properties hpath)
        (orNone_pruned hqueryField survives_properties hquery)
        (orNone_pruned hbodyField survives_body hbody)
  | _ => nomatch hd

/-- The one field of a document that is read. -/
def typesField : Field := ⟨"types", true, .list .definition⟩

theorem typesField_keys : ([typesField].map Field.key).Nodup := List.nodup_singleton "types"

theorem lookup_pruned_types (entries : List (Value × Value)) :
    lookup "types" (prunedEntries [typesField] entries) =
      (lookup "types" entries).map (pruned (.list .definition)) :=
  lookup_pruned_of_mem typesField_keys List.mem_cons_self entries

/-- **A document that is a catalog is the same one when it is pruned.** -/
theorem IsCatalog.pruned {entries : List (Value × Value)} {c : Catalog}
    (h : IsCatalog entries c) : IsCatalog (prunedEntries [typesField] entries) c := by
  obtain ⟨vs, hvs, hc⟩ := h
  refine ⟨prunedItems .definition vs, ?_, forall₂_prunedItems (fun v _ => survives_definition v) hc⟩
  rw [lookup_pruned_types, hvs]
  rfl

end TypeCatalog.Document
