import TypeCatalog.Proofs.Document.Verdict
import TypeCatalog.Proofs.Generation.Totality

/-!
# Proofs/Document/Encoding — a document for every catalog that has one

A catalog that is read from a document has its names (`HasNames`): none is empty, but that of a
reference without generics, which is written as the bare empty string.  Conversely every such
catalog has a document, `Catalog.encoded`, in which each part is the object of its kind and what is
absent is left out.  Reading it gives the same catalog again (`exists_document_iff`).
-/

namespace TypeCatalog

/-! ## Names -/

/-- An expression is one all the way down, and no name that it needs is empty. -/
inductive TypeExpr.HasNames : TypeExpr → Prop
  | reference {name : String} {generics : List TypeExpr} : name ≠ "" ∨ generics = [] →
      (∀ g ∈ generics, HasNames g) → HasNames (.reference name generics)
  | implementation {name : String} {generics : List TypeExpr} : name ≠ "" →
      (∀ g ∈ generics, HasNames g) → HasNames (.implementation name generics)
  | array {element : TypeExpr} : HasNames element → HasNames (.array element)
  | dictionary {key value : TypeExpr} : HasNames key → HasNames value →
      HasNames (.dictionary key value)
  | singleKey {value : TypeExpr} : HasNames value → HasNames (.singleKey value)
  | union {items : List TypeExpr} : (∀ e ∈ items, HasNames e) → HasNames (.union items)

/-- A member has a name, and its type has its names. -/
structure Property.HasNames (q : Property) : Prop where
  name : q.name ≠ ""
  type : ∀ e, q.type = some e → e.HasNames

/-- A header has a name, and so have its generics and its ancestors. -/
structure Header.HasNames (h : Header) : Prop where
  name : h.name ≠ ""
  openGenerics : ∀ g ∈ h.openGenerics, g ≠ ""
  ancestors : ∀ e ∈ h.ancestors, e.HasNames

/-- A body has its names. -/
inductive Body.HasNames : Body → Prop
  | properties {members : List Property} : (∀ q ∈ members, q.HasNames) →
      HasNames (.properties members)
  | type {expr : TypeExpr} : expr.HasNames → HasNames (.type expr)

/-- A group has its names, if there is one. -/
def GroupHasNames (group : Option (List Property)) : Prop :=
  ∀ qs, group = some qs → ∀ q ∈ qs, q.HasNames

/-- A definition is one, and has its names. -/
inductive Definition.HasNames : Definition → Prop
  | stringAlias {name : String} : name ≠ "" → HasNames (.stringAlias name)
  | numberAlias {name : String} : name ≠ "" → HasNames (.numberAlias name)
  | unionAlias {name : String} {wraps : TypeExpr} : name ≠ "" → wraps.HasNames →
      HasNames (.unionAlias name wraps)
  | enumeration {name : String} {members : List Member} : name ≠ "" →
      (∀ m ∈ members, m.name ≠ "") → HasNames (.enumeration name members)
  | interface {header : Header} {properties : List Property} : header.HasNames →
      (∀ q ∈ properties, q.HasNames) → HasNames (.interface header properties)
  | request {header : Header} {path query : Option (List Property)} {body : Option Body} :
      header.HasNames → GroupHasNames path → GroupHasNames query →
      (∀ b, body = some b → b.HasNames) → HasNames (.request header path query body)

/-! ## What is read has its names -/

namespace Document

open Value Related

theorem IsExpr.hasNames {v : Value} {e : TypeExpr} (h : IsExpr v e) : e.HasNames := by
  induction v using Value.inductParts generalizing e with
  | object es ih ihItems =>
    have listed {key : String} {vs : List Value} {exprs : List TypeExpr}
        (hvs : listUnder key es = .list vs) (hexprs : List.Forall₂ IsExpr vs exprs) :
        ∀ e ∈ exprs, e.HasNames :=
      forall_mem_of_forall₂
        (fun v hv e he => ihItems key vs (lookup_of_listUnder hvs hv) v hv he) hexprs
    cases h with
    | array _ hv he => exact .array (ih _ _ hv he)
    | dictionary _ hu hk hv he => exact .dictionary (ih _ _ hu hk) (ih _ _ hv he)
    | singleKey _ hv he => exact .singleKey (ih _ _ hv he)
    | union _ hvs hitems =>
      exact .union (forall_mem_of_forall₂ (fun v hv e he => ihItems _ _ hvs v hv he) hitems)
    | implementation _ hname hvs hgenerics =>
      exact .implementation hname.2 (listed hvs hgenerics)
    | reference _ hname hvs hgenerics => exact .reference (.inl hname.2) (listed hvs hgenerics)
  | list vs ih => nomatch h
  | other v hobject hlist =>
    cases h with
    | bare s => exact .reference (.inr rfl) nofun
    | _ => exact absurd rfl (hobject _)

theorem IsProperty.hasNames {v : Value} {q : Property} (h : IsProperty v q) : q.HasNames := by
  obtain ⟨es, -, hname, htype, -⟩ := h
  exact ⟨hname.2, htype.of_some fun _ _ => IsExpr.hasNames⟩

theorem hasNames_properties {v : Value} {qs : List Property} (h : IsList IsProperty v qs) :
    ∀ q ∈ qs, q.HasNames :=
  h.forall_mem fun _ _ => IsProperty.hasNames

theorem hasNames_group {v : Option Value} {group : Option (List Property)}
    (h : OrNone (IsList IsProperty) v group) : GroupHasNames group :=
  h.of_some fun _ _ => hasNames_properties

theorem IsBody.hasNames {v : Value} {b : Body} (h : IsBody v b) : b.HasNames := by
  cases h with
  | properties hqs => exact .properties (hasNames_properties hqs)
  | type he => exact .type he.hasNames

theorem IsHeader.hasNames {es : List (Value × Value)} {h : Header} (hh : IsHeader es h) :
    h.HasNames :=
  ⟨hh.1.2, hh.2.1.forall_mem fun _ _ hg => hg.2, hh.2.2.forall_mem fun _ _ => IsExpr.hasNames⟩

theorem IsDefinition.hasNames {v : Value} {d : Definition} (h : IsDefinition v d) : d.HasNames := by
  cases h with
  | stringAlias _ hname => exact .stringAlias hname.2
  | numberAlias _ hname => exact .numberAlias hname.2
  | unionAlias _ hname _ he => exact .unionAlias hname.2 he.hasNames
  | enumeration _ hname hmembers =>
    exact .enumeration hname.2 (hmembers.forall_mem fun _ _ ⟨_, _, hname, _⟩ => hname.2)
  | interface _ hheader hproperties =>
    exact .interface hheader.hasNames (hasNames_properties hproperties)
  | request _ hheader hpath hquery hbody =>
    exact .request hheader.hasNames (hasNames_group hpath) (hasNames_group hquery)
      (hbody.of_some fun _ _ => IsBody.hasNames)

end Document

/-! ## Documents of catalogs -/

/-- The entries of fields, whose keys are strings. -/
def fieldEntries (fields : List (String × Value)) : List (Value × Value) :=
  fields.map fun (key, v) => (.string key, v)

/-- The object with these fields. -/
def Value.ofFields (fields : List (String × Value)) : Value := .object (fieldEntries fields)

/-- A list of names. -/
def Value.ofNames (names : List String) : Value := .list (names.map .string)

/-- A field that is left out if there is nothing to stand there. -/
def optionalField {α : Type} (key : String) (encoded : α → Value) :
    Option α → List (String × Value)
  | none => []
  | some a => [(key, encoded a)]

namespace TypeExpr

mutual
/-- The value of an expression. -/
def encoded : TypeExpr → Value
  | reference name generics =>
    if name = "" then .string ""
    else .ofFields [("kind", .string "reference"), ("name", .string name),
      ("closedGenerics", .list (encodedAll generics))]
  | implementation name generics =>
    .ofFields [("kind", .string "implements"), ("type", .string name),
      ("closedGenerics", .list (encodedAll generics))]
  | array element => .ofFields [("kind", .string "array_of"), ("of", element.encoded)]
  | dictionary key value =>
    .ofFields [("kind", .string "dictionary"), ("key", key.encoded), ("value", value.encoded)]
  | singleKey value =>
    .ofFields [("kind", .string "single_key_dictionary"), ("value", value.encoded)]
  | union items =>
    .ofFields [("kind", .string "union_of"), ("items", .list (encodedAll items))]
  | unknown _ => .null

/-- The values of several expressions. -/
def encodedAll : List TypeExpr → List Value
  | [] => []
  | e :: rest => e.encoded :: encodedAll rest
end

theorem encodedAll_eq_map (es : List TypeExpr) : encodedAll es = es.map encoded := by
  induction es with
  | nil => rfl
  | cons e es ih => rw [encodedAll, ih, List.map_cons]

end TypeExpr

/-- The fields of a member. -/
def Property.fields (q : Property) : List (String × Value) :=
  [("name", .string q.name), ("nullable", .bool q.nullable)] ++
    optionalField "type" TypeExpr.encoded q.type

/-- The value of a list of members. -/
def Property.encodedList (qs : List Property) : Value :=
  .list (qs.map fun q => .ofFields q.fields)

/-- The value of a member of an enumeration. -/
def Member.encoded (m : Member) : Value :=
  .ofFields [("name", .string m.name), ("stringRepresentation", .string m.representation)]

/-- The value of a body. -/
def Body.encoded : Body → Value
  | properties members => Property.encodedList members
  | type expr => expr.encoded

/-- The fields of a header, with the kind of its definition. -/
def Header.fields (kind : String) (h : Header) : List (String × Value) :=
  [("kind", .string kind), ("name", .string h.name), ("openGenerics", .ofNames h.openGenerics),
   ("inherits", .list (h.ancestors.map TypeExpr.encoded))]

/-- The fields of a definition. -/
def Definition.fields : Definition → List (String × Value)
  | stringAlias name => [("kind", .string "string_alias"), ("name", .string name)]
  | numberAlias name => [("kind", .string "number_alias"), ("name", .string name)]
  | unionAlias name wraps =>
    [("kind", .string "union_alias"), ("name", .string name), ("wraps", wraps.encoded)]
  | enumeration name members =>
    [("kind", .string "enum"), ("name", .string name),
     ("members", .list (members.map Member.encoded))]
  | interface header properties =>
    header.fields "interface" ++ [("properties", Property.encodedList properties)]
  | request header path query body =>
    header.fields "request" ++ (optionalField "path" Property.encodedList path ++
      (optionalField "queryParameters" Property.encodedList query ++
        optionalField "body" Body.encoded body))
  | unknown _ _ => []

/-- The entries of the document of a catalog. -/
def Catalog.encoded (c : Catalog) : List (Value × Value) :=
  fieldEntries [("types", .list (c.map fun d => .ofFields d.fields))]

/-! ## What stands in them -/

namespace Document

open Value Related

@[simp] theorem lookup_fieldEntries (key : String) (fields : List (String × Value)) :
    lookup key (fieldEntries fields) = fields.lookup key := by
  induction fields with
  | nil => rfl
  | cons field rest ih =>
    obtain ⟨k, v⟩ := field
    change (if (Value.string k).isString key then some v else lookup key (fieldEntries rest)) = _
    rw [List.lookup_cons, ih, isString, Bool.beq_comm]
    cases key == k <;> rfl

@[simp] theorem lookup_optionalField {α : Type} (k key : String) (encoded : α → Value)
    (a : Option α) :
    (optionalField key encoded a).lookup k = if k == key then a.map encoded else none := by
  cases a with
  | none => rw [optionalField, Option.map_none, ite_self, List.lookup_nil]
  | some a =>
    rw [optionalField, List.lookup_cons, List.lookup_nil]
    cases k == key <;> rfl

/-- A list of values, each the value of what stands at its position. -/
theorem isList_map {α : Type} {is : Value → α → Prop} {encoded : α → Value} {as : List α}
    (h : ∀ a ∈ as, is (encoded a) a) : IsList is (.list (as.map encoded)) as :=
  ⟨_, rfl, List.forall₂_map_left_iff.mpr (List.forall₂_same.mpr h)⟩

/-- A part that is left out, or stands there as itself. -/
theorem orNone_map {α : Type} {is : Value → α → Prop} {encoded : α → Value} {a : Option α}
    (hnull : ∀ b, ¬ is .null b) (h : ∀ b, a = some b → is (encoded b) b) :
    OrNone is (a.map encoded) a := by
  cases a with
  | none => exact .absent
  | some b => exact .present (fun heq => hnull b (heq ▸ h b rfl)) (h b rfl)

/-! ## Reading them again -/

theorem forall₂_encodedAll {es : List TypeExpr} (h : ∀ e ∈ es, IsExpr e.encoded e) :
    List.Forall₂ IsExpr (TypeExpr.encodedAll es) es := by
  rw [TypeExpr.encodedAll_eq_map]
  exact List.forall₂_map_left_iff.mpr (List.forall₂_same.mpr h)

theorem isExpr_encoded {e : TypeExpr} (h : e.HasNames) : IsExpr e.encoded e := by
  induction h with
  | @reference name generics hname _ ih =>
    rw [TypeExpr.encoded]
    by_cases hempty : name = ""
    · obtain rfl := hname.resolve_left (not_not_intro hempty)
      rw [if_pos hempty, hempty]
      exact .bare ""
    · rw [if_neg hempty]
      exact .reference rfl ⟨rfl, hempty⟩ rfl (forall₂_encodedAll ih)
  | implementation hname _ ih =>
    exact .implementation rfl ⟨rfl, hname⟩ rfl (forall₂_encodedAll ih)
  | array _ ih => exact .array rfl rfl ih
  | dictionary _ _ ihKey ihValue => exact .dictionary rfl rfl ihKey rfl ihValue
  | singleKey _ ih => exact .singleKey rfl rfl ih
  | union _ ih => exact .union rfl rfl (forall₂_encodedAll ih)

theorem isProperty_ofFields {q : Property} (h : q.HasNames) :
    IsProperty (.ofFields q.fields) q := by
  have htype : lookup "type" (fieldEntries q.fields) = q.type.map TypeExpr.encoded := by
    simp [Property.fields, List.lookup_cons]
  refine ⟨_, rfl, ⟨rfl, h.name⟩, ?_, rfl⟩
  rw [htype]
  exact orNone_map nofun fun e he => isExpr_encoded (h.type e he)

theorem isProperties_encodedList {qs : List Property} (h : ∀ q ∈ qs, q.HasNames) :
    IsList IsProperty (Property.encodedList qs) qs :=
  isList_map fun q hq => isProperty_ofFields (h q hq)

theorem orNone_encodedList {group : Option (List Property)} (h : GroupHasNames group) :
    OrNone (IsList IsProperty) (group.map Property.encodedList) group :=
  orNone_map nofun fun qs hqs => isProperties_encodedList (h qs hqs)

theorem isMember_encoded {m : Member} (h : m.name ≠ "") : IsMember m.encoded m :=
  ⟨_, rfl, ⟨rfl, h⟩, .string _⟩

theorem isBody_encoded {b : Body} (h : b.HasNames) : IsBody b.encoded b := by
  cases h with
  | properties h => exact .properties (isProperties_encodedList h)
  | type h => exact .type (isExpr_encoded h)

theorem not_isBody_null (b : Body) : ¬ IsBody .null b := by
  rintro (⟨_, hnull, _⟩ | h)
  · nomatch hnull
  · nomatch h

/-- The fields of a header make it one, whatever comes after them. -/
theorem isHeader_fields {h : Header} (hh : h.HasNames) (kind : String)
    (others : List (String × Value)) : IsHeader (fieldEntries (h.fields kind ++ others)) h :=
  ⟨⟨rfl, hh.name⟩, isList_map fun g hg => ⟨rfl, hh.openGenerics g hg⟩,
    isList_map fun e he => isExpr_encoded (hh.ancestors e he)⟩

theorem isDefinition_ofFields {d : Definition} (h : d.HasNames) :
    IsDefinition (.ofFields d.fields) d := by
  cases h with
  | stringAlias hname => exact .stringAlias rfl ⟨rfl, hname⟩
  | numberAlias hname => exact .numberAlias rfl ⟨rfl, hname⟩
  | unionAlias hname he => exact .unionAlias rfl ⟨rfl, hname⟩ rfl (isExpr_encoded he)
  | enumeration hname hmembers =>
    exact .enumeration rfl ⟨rfl, hname⟩ (isList_map fun m hm => isMember_encoded (hmembers m hm))
  | interface hheader hproperties =>
    exact .interface rfl (isHeader_fields hheader _ _) (isProperties_encodedList hproperties)
  | @request header path query body hheader hpath hquery hbody =>
    let es := fieldEntries (Definition.request header path query body).fields
    have hpathAt : lookup "path" es = path.map Property.encodedList := by
      simp [es, Definition.fields, Header.fields, List.lookup_cons, List.lookup_append]
    have hqueryAt : lookup "queryParameters" es = query.map Property.encodedList := by
      simp [es, Definition.fields, Header.fields, List.lookup_cons, List.lookup_append]
    have hbodyAt : lookup "body" es = body.map Body.encoded := by
      simp [es, Definition.fields, Header.fields, List.lookup_cons, List.lookup_append]
    have hpathIs : OrNone (IsList IsProperty) (lookup "path" es) path :=
      hpathAt ▸ orNone_encodedList hpath
    have hqueryIs : OrNone (IsList IsProperty) (lookup "queryParameters" es) query :=
      hqueryAt ▸ orNone_encodedList hquery
    have hbodyIs : OrNone IsBody (lookup "body" es) body :=
      hbodyAt ▸ orNone_map not_isBody_null fun b hb => isBody_encoded (hbody b hb)
    exact .request rfl (isHeader_fields hheader _ _) hpathIs hqueryIs hbodyIs

theorem isCatalog_encoded {c : Catalog} (h : ∀ d ∈ c, d.HasNames) : IsCatalog c.encoded c :=
  ⟨_, rfl, List.forall₂_map_left_iff.mpr
    (List.forall₂_same.mpr fun d hd => isDefinition_ofFields (h d hd))⟩

theorem IsCatalog.hasNames {entries : List (Value × Value)} {c : Catalog}
    (h : IsCatalog entries c) : ∀ d ∈ c, d.HasNames := by
  obtain ⟨vs, -, hvs⟩ := h
  exact forall_mem_of_forall₂ (fun _ _ _ => IsDefinition.hasNames) hvs

/-- **The catalogs that have a document are those with their names**, and each of these is what is
loaded of its own document, so that no two of them share one. -/
theorem exists_document_iff (c : Catalog) :
    ((∃ entries, Catalog.ofDocument entries = .ok c) ↔ ∀ d ∈ c, d.HasNames) ∧
      ((∀ d ∈ c, d.HasNames) → Catalog.ofDocument c.encoded = .ok c) ∧
      (∀ other : Catalog, (∀ d ∈ c, d.HasNames) → (∀ d ∈ other, d.HasNames) →
        other.encoded = c.encoded → other = c) := by
  have hread {c : Catalog} (h : ∀ d ∈ c, d.HasNames) : Catalog.ofDocument c.encoded = .ok c :=
    Loaded.ofDocument_eq_ok.mpr (isCatalog_encoded h)
  refine ⟨⟨?_, fun h => ⟨_, hread h⟩⟩, hread, fun other h hother heq => ?_⟩
  · rintro ⟨entries, h⟩
    exact (Loaded.ofDocument_eq_ok.mp h).hasNames
  · exact Except.ok.inj ((hread hother).symm.trans (heq ▸ hread h))

/-- Requests whose groups are absent, empty and filled, with bodies of both forms. -/
def requestShapes : Catalog :=
  [.request ⟨"Ping", [], []⟩ none none none,
   .request ⟨"Clear", [], []⟩ (some []) none (some (.properties [])),
   .request ⟨"Search", ["T"], [.implementation "Base" [.reference "T" []]]⟩ none
     (some [⟨"q", none, true⟩, ⟨"size", some (.union []), false⟩])
     (some (.type (.reference "" [])))]

/-- Each is loaded of its own document; a nameless reference with generics is in no document. -/
theorem requestShapes_hasDocument :
    ((∀ d ∈ requestShapes, d.HasNames) ∧
      Catalog.ofDocument requestShapes.encoded = .ok requestShapes) ∧
      ¬ ∃ entries, Catalog.ofDocument entries =
        .ok [.unionAlias "Boxed" (.reference "" [.reference "T" []])] := by
  have hnamed := (exists_document_iff requestShapes).1.mp ⟨requestShapes.encoded, by rfl⟩
  refine ⟨⟨hnamed, (exists_document_iff requestShapes).2.1 hnamed⟩, fun hdoc => ?_⟩
  have hboxed := (exists_document_iff _).1.mp hdoc _ List.mem_cons_self
  cases hboxed with
  | unionAlias _ hwraps =>
    cases hwraps with
    | reference hname _ => exact hname.elim (absurd rfl) nofun

end Document

end TypeCatalog
