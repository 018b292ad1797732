import TypeCatalog.Declaration.Namespace
import TypeCatalog.Proofs.Document.Acceptance
import TypeCatalog.Proofs.Related

/-!
# Proofs/Generation/Totality — what is loaded can be generated

Generation fails on values that are no type expressions and no definitions (`unknown`), and on
nothing else; a loaded catalog has none, at any depth (`Known`).  What generation logs and what was
logged before make no difference: `Yields` speaks of every journal.
-/

namespace TypeCatalog

/-! ## Known expressions and definitions -/

/-- An expression is one all the way down. -/
inductive TypeExpr.Known : TypeExpr → Prop
  | reference (name : String) {generics : List TypeExpr} : (∀ g ∈ generics, Known g) →
      Known (.reference name generics)
  | implementation (name : String) {generics : List TypeExpr} : (∀ g ∈ generics, Known g) →
      Known (.implementation name generics)
  | array {element : TypeExpr} : Known element → Known (.array element)
  | dictionary {key value : TypeExpr} : Known key → Known value → Known (.dictionary key value)
  | singleKey {value : TypeExpr} : Known value → Known (.singleKey value)
  | union {items : List TypeExpr} : (∀ e ∈ items, Known e) → Known (.union items)

/-- The type of a member, if it has one, is an expression. -/
def Property.Known (q : Property) : Prop := ∀ e, q.type = some e → e.Known

/-- All ancestors are expressions. -/
def Header.Known (h : Header) : Prop := ∀ e ∈ h.ancestors, e.Known

/-- The members of a group, if there is one, are as they should be. -/
def KnownGroup (group : Option (List Property)) : Prop := ∀ qs, group = some qs → ∀ q ∈ qs, q.Known

/-- A body has members as they should be, or is an expression. -/
inductive Body.Known : Body → Prop
  | properties {members : List Property} : (∀ q ∈ members, q.Known) → Known (.properties members)
  | type {expr : TypeExpr} : expr.Known → Known (.type expr)

/-- A definition is one, with expressions wherever it refers to types. -/
inductive Definition.Known : Definition → Prop
  | stringAlias (name : String) : Known (.stringAlias name)
  | numberAlias (name : String) : Known (.numberAlias name)
  | unionAlias (name : String) {wraps : TypeExpr} : wraps.Known → Known (.unionAlias name wraps)
  | enumeration (name : String) (members : List Member) : Known (.enumeration name members)
  | interface {header : Header} {properties : List Property} : header.Known →
      (∀ q ∈ properties, q.Known) → Known (.interface header properties)
  | request {header : Header} {path query : Option (List Property)} {body : Option Body} :
      header.Known → KnownGroup path → KnownGroup query → (∀ b, body = some b → b.Known) →
      Known (.request header path query body)

/-! ## What is loaded is known -/

namespace Document

open Value Related

/-- An expression by the grammar has no unknown part. -/
theorem IsExpr.known {v : Value} {e : TypeExpr} (h : IsExpr v e) : e.Known := by
  induction v using Value.inductParts generalizing e with
  | object es ih ihItems =>
    have listed {key : String} {vs : List Value} {exprs : List TypeExpr}
        (hvs : listUnder key es = .list vs) (hexprs : List.Forall₂ IsExpr vs exprs) :
        ∀ e ∈ exprs, e.Known :=
      forall_mem_of_forall₂
        (fun v hv e he => ihItems key vs (lookup_of_listUnder hvs hv) v hv he) hexprs
    cases h with
    | array _ hv he => exact .array (ih _ _ hv he)
    | dictionary _ hu hk hv he => exact .dictionary (ih _ _ hu hk) (ih _ _ hv he)
    | singleKey _ hv he => exact .singleKey (ih _ _ hv he)
    | union _ hvs hitems =>
      exact .union (forall_mem_of_forall₂ (fun v hv e he => ihItems _ _ hvs v hv he) hitems)
    | implementation _ _ hvs hgenerics => exact .implementation _ (listed hvs hgenerics)
    | reference _ _ hvs hgenerics => exact .reference _ (listed hvs hgenerics)
  | list vs ih => nomatch h
  | other v hobject hlist =>
    cases h with
    | bare s => exact .reference s nofun
    | _ => exact absurd rfl (hobject _)

theorem IsList.forall_mem {α : Type} {is : Value → α → Prop} {P : α → Prop} {v : Value}
    {as : List α} (h : IsList is v as) (hP : ∀ v a, is v a → P a) : ∀ a ∈ as, P a := by
  obtain ⟨vs, -, has⟩ := h
  exact forall_mem_of_forall₂ (fun v _ a => hP v a) has

theorem OrNone.of_some {α : Type} {is : Value → α → Prop} {P : α → Prop} {v : Option Value}
    {o : Option α} (h : OrNone is v o) (hP : ∀ v a, is v a → P a) : ∀ a, o = some a → P a := by
  rintro a rfl
  cases h with
  | present _ ha => exact hP _ a ha

/-- Nor has a member of an interface. -/
theorem IsProperty.known {v : Value} {q : Property} (h : IsProperty v q) : q.Known := by
  obtain ⟨es, -, -, htype, -⟩ := h
  exact htype.of_some fun _ _ => IsExpr.known

theorem known_properties {v : Value} {qs : List Property} (h : IsList IsProperty v qs) :
    ∀ q ∈ qs, q.Known :=
  h.forall_mem fun _ _ => IsProperty.known

theorem known_group {v : Option Value} {group : Option (List Property)}
    (h : OrNone (IsList IsProperty) v group) : KnownGroup group :=
  h.of_some fun _ _ => known_properties

/-- Nor has a body. -/
theorem IsBody.known {v : Value} {b : Body} (h : IsBody v b) : b.Known := by
  cases h with
  | properties hqs => exact .properties (known_properties hqs)
  | type he => exact .type he.known

theorem IsHeader.known {es : List (Value × Value)} {h : Header} (hh : IsHeader es h) : h.Known :=
  hh.2.2.forall_mem fun _ _ => IsExpr.known

/-- **Nor has a definition**, of whichever kind. -/
theorem IsDefinition.known {v : Value} {d : Definition} (h : IsDefinition v d) : d.Known := by
  cases h with
  | stringAlias => exact .stringAlias _
  | numberAlias => exact .numberAlias _
  | unionAlias _ _ _ he => exact .unionAlias _ he.known
  | enumeration => exact .enumeration _ _
  | interface _ hheader hproperties => exact .interface hheader.known (known_properties hproperties)
  | request _ hheader hpath hquery hbody =>
    exact .request hheader.known (known_group hpath) (known_group hquery)
      (hbody.of_some fun _ _ => IsBody.known)

theorem IsCatalog.known {entries : List (Value × Value)} {c : Catalog} (h : IsCatalog entries c) :
    ∀ d ∈ c, d.Known := by
  obtain ⟨vs, -, hc⟩ := h
  exact forall_mem_of_forall₂ (fun _ _ _ => IsDefinition.known) hc

end Document

/-! ## Runs that succeed whatever was logged -/

namespace Log.Logged

variable {ε α β : Type} {P : α → Prop} {Q : β → Prop}

/-- A computation succeeds on every journal, with a result of which something holds. -/
def Yields (act : Logged ε α) (P : α → Prop) : Prop :=
  ∀ j, ∃ a j', act.run.run j = (.ok a, j') ∧ P a

theorem Yields.pure {a : α} (h : P a) : Yields (pure a : Logged ε α) P := fun j => ⟨a, j, rfl, h⟩

/-- The rule of sequence: the rest yields from whatever the first part yields. -/
theorem Yields.bind {act : Logged ε α} {f : α → Logged ε β} (h : Yields act P)
    (hf : ∀ a, P a → Yields (f a) Q) : Yields (act >>= f) Q := by
  intro j
  obtain ⟨a, j₁, hact, ha⟩ := h j
  obtain ⟨b, j₂, hrest, hb⟩ := hf a ha j₁
  refine ⟨b, j₂, ?_, hb⟩
  rw [ExceptT.run_bind, StateT.run_bind, hact]
  exact hrest

theorem yields_log (e : Event) : Yields (log e : Logged ε Unit) fun _ => True :=
  fun _ => ⟨(), _, rfl, trivial⟩

theorem yields_ofExcept {r : Except ε α} {a : α} (h : r = .ok a) :
    Yields (ofExcept r) fun _ => True :=
  fun j => ⟨a, j, by rw [h]; rfl, trivial⟩

/-- A computation yields the same inside the block of a definition. -/
theorem Yields.within {act : Logged ε α} (h : Yields act P) (name : String) :
    Yields (within name act) P := by
  intro j
  obtain ⟨a, j', hact, ha⟩ := h { j with bound := some name }
  exact ⟨a, { j' with bound := j.bound }, by
    rw [Logged.within, ExceptT.run_mk, StateT.run, hact], ha⟩

end Log.Logged

/-! ## Written types -/

/-- Several expressions have trees if each of them has one. -/
theorem TypeExpr.exists_trees {p : Profile} {es : List TypeExpr}
    (h : ∀ e ∈ es, ∃ t, e.tree p = .ok t) : ∃ ts, TypeExpr.trees p es = .ok ts := by
  induction es with
  | nil => exact ⟨[], rfl⟩
  | cons e es ih =>
    obtain ⟨⟨t, ht⟩, hes⟩ := List.forall_mem_cons.mp h
    obtain ⟨ts, hts⟩ := ih hes
    exact ⟨t :: ts, by rw [TypeExpr.trees, ht, hts]; rfl⟩

/-- **Every expression has a written type.** -/
theorem TypeExpr.Known.exists_tree {e : TypeExpr} (h : e.Known) (p : Profile) :
    ∃ t, e.tree p = .ok t := by
  induction h with
  | @reference name generics _ ih =>
    cases generics with
    | nil => exact ⟨_, rfl⟩
    | cons g gs =>
      obtain ⟨ts, hts⟩ := exists_trees ih
      exact ⟨_, by rw [TypeExpr.tree, hts]; rfl⟩
  | implementation name _ ih =>
    obtain ⟨ts, hts⟩ := exists_trees ih
    rw [TypeExpr.tree, hts]
    split
    · exact ⟨_, rfl⟩
    · split
      · exact ⟨_, rfl⟩
      · exact ⟨_, rfl⟩
  | array _ ih =>
    obtain ⟨t, ht⟩ := ih
    exact ⟨_, by rw [TypeExpr.tree, ht]; rfl⟩
  | dictionary _ _ ihKey ihValue =>
    obtain ⟨k, hk⟩ := ihKey
    obtain ⟨t, ht⟩ := ihValue
    exact ⟨_, by rw [TypeExpr.tree, hk, ht]; rfl⟩
  | singleKey _ ih =>
    obtain ⟨t, ht⟩ := ih
    exact ⟨_, by rw [TypeExpr.tree, ht]; rfl⟩
  | union _ ih =>
    obtain ⟨ts, hts⟩ := exists_trees ih
    exact ⟨_, by rw [TypeExpr.tree, hts]; rfl⟩

/-- A known expression has a text. -/
theorem TypeExpr.Known.exists_text {e : TypeExpr} (h : e.Known) (p : Profile) :
    ∃ s, e.text p = .ok s := by
  obtain ⟨t, ht⟩ := h.exists_tree p
  exact ⟨t.text, by rw [TypeExpr.text, ht]; rfl⟩

/-- A known header has a line. -/
theorem Header.Known.exists_line {h : Header} (hh : h.Known) (p : Profile) :
    ∃ s, h.line p = .ok s := by
  obtain ⟨ts, hts⟩ := TypeExpr.exists_trees fun e he => (hh e he).exists_tree p
  rw [Header.line, extendsClause, hts]
  split
  · exact ⟨_, rfl⟩
  · exact ⟨_, rfl⟩

/-! ## Declarations -/

open Log Logged

section Declarations

variable (p : Profile)

/-- Known members have lines, or are passed over with a note. -/
theorem memberLines_yields (indent : String) {qs : List Property} (h : ∀ q ∈ qs, q.Known) :
    Yields (memberLines p indent qs) fun _ => True := by
  induction qs with
  | nil => exact .pure trivial
  | cons q qs ih =>
    obtain ⟨hq, hqs⟩ := List.forall_mem_cons.mp h
    rw [memberLines]
    cases htype : q.type with
    | none => exact (yields_log _).bind fun _ _ => ih hqs
    | some e =>
      obtain ⟨s, hs⟩ := (hq e htype).exists_text p
      refine (yields_ofExcept hs).bind fun type _ => ?_
      exact (ih hqs).bind fun lines _ => .pure trivial

theorem groupLines_yields {group : Option (List Property)} (h : KnownGroup group) :
    Yields (groupLines p group) fun _ => True := by
  cases group with
  | none => exact .pure trivial
  | some members => exact memberLines_yields p memberIndent (h members rfl)

theorem bodyLines_yields {body : Option Body} (h : ∀ b, body = some b → b.Known) :
    Yields (bodyLines p body) fun _ => True := by
  cases body with
  | none => exact .pure trivial
  | some b =>
    cases h b rfl with
    | properties hmembers =>
      exact (memberLines_yields p bodyIndent hmembers).bind fun _ _ => .pure trivial
    | type he =>
      obtain ⟨s, hs⟩ := he.exists_text p
      exact (yields_ofExcept hs).bind fun _ _ => .pure trivial

/-- An interface has lines if its members have. -/
theorem interfaceLines_yields {h : Header} {members : Logged GenerationError (List String)}
    (hh : h.Known) (hmembers : Yields members fun _ => True) :
    Yields (interfaceLines p h members) fun _ => True := by
  obtain ⟨s, hs⟩ := hh.exists_line p
  refine (yields_ofExcept hs).bind fun header _ => ?_
  exact hmembers.bind fun lines _ => .pure trivial

theorem requestMembers_yields {path query : Option (List Property)} {body : Option Body}
    (hpath : KnownGroup path) (hquery : KnownGroup query)
    (hbody : ∀ b, body = some b → b.Known) :
    Yields (requestMembers p path query body) fun _ => True := by
  refine (groupLines_yields p hpath).bind fun pathLines _ => ?_
  refine (groupLines_yields p hquery).bind fun queryLines _ => ?_
  exact (bodyLines_yields p hbody).bind fun bodyLines _ => .pure trivial

/-- A known definition has lines, one case for each kind. -/
theorem lines_yields {d : Definition} (h : d.Known) : Yields (d.lines p) fun _ => True := by
  cases h with
  | stringAlias name => exact .pure trivial
  | numberAlias name => exact .pure trivial
  | unionAlias name hwraps =>
    obtain ⟨s, hs⟩ := hwraps.exists_text p
    exact (yields_ofExcept hs).bind fun _ _ => .pure trivial
  | enumeration name members => exact .pure trivial
  | interface hheader hproperties =>
    exact interfaceLines_yields p hheader (memberLines_yields p memberIndent hproperties)
  | request hheader hpath hquery hbody =>
    exact interfaceLines_yields p hheader (requestMembers_yields p hpath hquery hbody)

theorem declaration_yields {d : Definition} (h : d.Known) :
    Yields (d.declaration p) fun _ => True :=
  (lines_yields p h).bind fun _ _ => .pure trivial

/-! ## Catalogs -/

/-- Whether an entry is a base type, and gets no declaration. -/
def Definition.isBase (d : Definition) : Bool := d.name?.any fun name => name ∈ p.skipNames

/-- A known definition has a name. -/
theorem Definition.Known.exists_name {d : Definition} (h : d.Known) :
    ∃ name, d.name? = some name := by
  cases h <;> exact ⟨_, rfl⟩

/-- An entry has a declaration unless it is a base type. -/
theorem entryDeclaration_yields {d : Definition} (h : d.Known) :
    Yields (entryDeclaration p d) fun o => o.isNone = d.isBase p := by
  obtain ⟨name, hname⟩ := h.exists_name
  have hbase : d.isBase p = decide (name ∈ p.skipNames) := by
    rw [Definition.isBase, hname, Option.any_some]
  rw [entryDeclaration.eq_def, hname, hbase]
  refine Yields.within ?_ name
  by_cases hskip : name ∈ p.skipNames
  · rw [if_pos hskip]
    exact (yields_log _).bind fun _ _ => .pure (by simp [hskip])
  · rw [if_neg hskip]
    exact (declaration_yields p h).bind fun code _ => .pure (by simp [hskip])

/-- All entries of a known catalog yield, base types without a declaration. -/
theorem catalogDeclarations_yields {c : Catalog} (h : ∀ d ∈ c, d.Known) :
    Yields (catalogDeclarations p c) fun all => all.map Option.isNone = c.map (·.isBase p) := by
  induction c with
  | nil => exact .pure rfl
  | cons d c ih =>
    obtain ⟨hd, hc⟩ := List.forall_mem_cons.mp h
    refine (entryDeclaration_yields p hd).bind fun o ho => ?_
    refine (ih hc).bind fun all hall => .pure ?_
    rw [List.map_cons, List.map_cons, ho, hall]

/-- What was generated counts every entry: the base types as skipped, the others as emitted. -/
def Counts (c : Catalog) (out : Output) : Prop :=
  out.emitted + out.skipped = c.length ∧ out.skipped = c.countP (·.isBase p)

/-- Entries are counted once, as declared or as passed over. -/
theorem counts_of_map_isNone {c : Catalog} {all : List (Option String)} {code : String}
    (h : all.map Option.isNone = c.map (·.isBase p)) :
    Counts p c ⟨code, (all.filterMap id).length, all.length - (all.filterMap id).length⟩ := by
  have hlength : all.length = c.length := by simpa using congrArg List.length h
  have hskipped : all.countP Option.isNone = c.countP (·.isBase p) := by
    have hcount := congrArg (List.countP id) h
    rwa [List.countP_map, List.countP_map] at hcount
  have hemitted : (all.filterMap id).length = all.countP Option.isSome :=
    List.length_filterMap_eq_countP
  have hnot : (fun o : Option String => decide ¬ o.isSome = true) = Option.isNone := by
    funext o
    cases o <;> rfl
  have htotal : all.length = all.countP Option.isSome + all.countP Option.isNone :=
    hnot ▸ List.length_eq_countP_add_countP Option.isSome
  constructor
  · change (all.filterMap id).length + (all.length - (all.filterMap id).length) = _
    omega
  · change all.length - (all.filterMap id).length = _
    omega

theorem generate_yields {c : Catalog} (h : ∀ d ∈ c, d.Known) :
    Yields (generate p c) (Counts p c) :=
  (catalogDeclarations_yields p h).bind fun _ hall => .pure (counts_of_map_isNone p hall)

end Declarations

/-- **What is loaded can be generated**, for every profile and on every journal, and each entry of
the document is counted: the base types as skipped, all others as emitted. -/
theorem generate_ofDocument {entries : List (Value × Value)} {c : Catalog}
    (h : Catalog.ofDocument entries = .ok c) (p : Profile) (j : Journal) :
    ∃ vs out j', Value.lookup "types" entries = some (.list vs) ∧
      (generate p c).run.run j = (.ok out, j') ∧ out.emitted + out.skipped = vs.length ∧
      out.skipped = c.countP (·.isBase p) := by
  have hcatalog := Loaded.ofDocument_eq_ok.mp h
  obtain ⟨out, j', hrun, htotal, hskipped⟩ := generate_yields p hcatalog.known j
  obtain ⟨vs, hvs, heach⟩ := hcatalog
  exact ⟨vs, out, j', hvs, hrun, htotal.trans heach.length_eq.symm, hskipped⟩

/-- The entries of a request and of the base type of its response. -/
def searchEntries : List (Value × Value) :=
  [(.string "types", .list
    [.object [(.string "kind", .string "interface"), (.string "name", .string "ResponseBase")],
     .object [(.string "kind", .string "request"), (.string "name", .string "SearchRequest"),
       (.string "body", .list [.object [(.string "name", .string "query")]])]])]

/-- The request is generated, and the base type skipped. -/
theorem search_generated :
    ∃ c vs out j', Catalog.ofDocument searchEntries = .ok c ∧
      Value.lookup "types" searchEntries = some (.list vs) ∧
      (generate {} c).run.run {} = (.ok out, j') ∧ out.emitted + out.skipped = vs.length ∧
      out.skipped = c.countP (·.isBase {}) := by
  have hload : Catalog.ofDocument searchEntries = .ok
      [.interface ⟨"ResponseBase", [], []⟩ [], .request ⟨"SearchRequest", [], []⟩ none none
        (some (.properties [⟨"query", none, false⟩]))] := by rfl
  obtain ⟨vs, out, j', hgenerate⟩ := generate_ofDocument hload {} {}
  exact ⟨_, vs, out, j', hload, hgenerate⟩

end TypeCatalog
