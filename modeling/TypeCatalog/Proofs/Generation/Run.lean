import TypeCatalog.Declaration.Namespace
import TypeCatalog.Proofs.Generation.DeclarationTree

/-!
# Proofs/Generation/Run — what a run of the generation does

`Performs` says what a computation does on every journal: its result, which does not depend on what
was logged before; the binding, which is left as it was; and the records that a success adds.  The
functions of the generation are followed one by one, up to `generate_performs`: the result is that
of resolving the entries to declaration trees and laying them out, the records are those of the
entries in their order.
-/

namespace TypeCatalog

open Failure Log

namespace Log.Logged

variable {ε α β : Type} {act : Logged ε α} {r : Except ε α}
  {records records' : Option String → List Record}

/-- On every journal a computation has the same result and leaves the binding as it was; if it
succeeds, it adds the records that are given for the binding. -/
def Performs (act : Logged ε α) (r : Except ε α) (records : Option String → List Record) : Prop :=
  ∀ j, ∃ j', act.run.run j = (r, j') ∧ j'.bound = j.bound ∧
    ∀ a, r = .ok a → j'.records = j.records ++ records j.bound

/-- The records of events that are logged one after another. -/
def under (events : List Event) (bound : Option String) : List Record :=
  events.map fun e => ⟨e, bound⟩

theorem Performs.congr (h : Performs act r records) {r' : Except ε α} (hr : r = r')
    (hrecords : ∀ b, records b = records' b) : Performs act r' records' := by
  obtain rfl := hr
  obtain rfl := funext hrecords
  exact h

theorem performs_pure (a : α) : Performs (pure a : Logged ε α) (.ok a) (under []) :=
  fun j => ⟨j, rfl, rfl, fun _ _ => (List.append_nil _).symm⟩

theorem performs_throw (e : ε) : Performs (throw e : Logged ε α) (.error e) records :=
  fun j => ⟨j, rfl, rfl, nofun⟩

theorem performs_ofExcept (r : Except ε α) : Performs (ofExcept r) r (under []) :=
  fun j => ⟨j, rfl, rfl, fun _ _ => (List.append_nil _).symm⟩

theorem performs_log (e : Event) : Performs (log e : Logged ε Unit) (.ok ()) (under [e]) :=
  fun _ => ⟨_, rfl, rfl, fun _ _ => rfl⟩

/-- One computation after another. -/
theorem Performs.bind {f : α → Logged ε β} {g : α → Except ε β} (h : Performs act r records)
    (hf : ∀ a, Performs (f a) (g a) records') :
    Performs (act >>= f) (r >>= g) fun b => records b ++ records' b := by
  intro j
  obtain ⟨j₁, hact, hbound, hrecords⟩ := h j
  cases r with
  | error e =>
    refine ⟨j₁, ?_, hbound, nofun⟩
    rw [ExceptT.run_bind, StateT.run_bind, hact]
    rfl
  | ok a =>
    obtain ⟨j₂, hrest, hbound', hrecords'⟩ := hf a j₁
    refine ⟨j₂, ?_, hbound'.trans hbound, fun b hb => ?_⟩
    · rw [ExceptT.run_bind, StateT.run_bind, hact]
      exact hrest
    · rw [hrecords' b hb, hrecords a rfl, hbound, List.append_assoc]

/-- Inside a binding, whatever was bound before. -/
theorem Performs.within (h : Performs act r records) (name : String) :
    Performs (within name act) r fun _ => records (some name) := by
  intro j
  obtain ⟨j', hact, -, hrecords⟩ := h { j with bound := some name }
  refine ⟨{ j' with bound := j.bound }, ?_, rfl, hrecords⟩
  rw [Logged.within, ExceptT.run_mk, StateT.run, hact]

end Log.Logged

open Logged

/-! ## Lines -/

section Lines

variable (p : Profile)

/-- The warnings about members that are left out. -/
def untypedEvents (members : List Property) : List Event :=
  (members.filter (·.type.isNone)).map fun q => untypedEvent q.name

/-- Members: their lines, and a note for each one without a type. -/
theorem memberLines_performs (indent : String) (qs : List Property) :
    Performs (memberLines p indent qs) ((memberTrees p qs).map (·.map (MemberTree.line indent)))
      (under (untypedEvents qs)) := by
  induction qs with
  | nil => exact performs_pure []
  | cons q qs ih =>
    rw [memberLines, untypedEvents, List.filter_cons]
    cases htype : q.type with
    | none =>
      rw [memberTrees_untyped p htype]
      exact (performs_log _).bind fun _ => ih
    | some e =>
      refine ((performs_ofExcept (e.text p)).bind fun type => ih.bind fun lines =>
        performs_pure _).congr ?_ fun b => List.append_nil _
      rw [memberTrees_typed p htype, TypeExpr.text]
      cases e.tree p <;> cases memberTrees p qs <;> rfl

/-- A group that may be absent. -/
theorem groupLines_performs (group : Option (List Property)) :
    Performs (groupLines p group)
      ((memberTrees p (group.getD [])).map (·.map (MemberTree.line memberIndent)))
      (under (untypedEvents (group.getD []))) := by
  cases group with
  | none => exact performs_pure []
  | some members => exact memberLines_performs p memberIndent members

/-- The warnings about members of a body. -/
def bodyEvents : Option Body → List Event
  | some (.properties members) => untypedEvents members
  | _ => []

/-- A body: its members, or a type that is one member. -/
theorem bodyLines_performs (body : Option Body) :
    Performs (bodyLines p body) ((bodyTree p body).map (·.elim [] BodyTree.lines))
      (under (bodyEvents body)) := by
  cases body with
  | none => exact performs_pure []
  | some b =>
    cases b with
    | properties members =>
      refine ((memberLines_performs p bodyIndent members).bind fun lines =>
        performs_pure _).congr ?_ fun b => List.append_nil _
      rw [bodyTree]
      cases memberTrees p members <;> rfl
    | type e =>
      refine ((performs_ofExcept (e.text p)).bind fun type => performs_pure _).congr ?_ fun b => rfl
      rw [bodyTree, TypeExpr.text]
      cases e.tree p <;> rfl

theorem memberTrees_append (qs qs' : List Property) : memberTrees p (qs ++ qs') =
    (both (memberTrees p qs) (memberTrees p qs')).map fun (ms, ms') => ms ++ ms' := by
  induction qs with
  | nil =>
    rw [List.nil_append, memberTrees]
    cases memberTrees p qs' <;> rfl
  | cons q qs ih =>
    rw [List.cons_append]
    cases htype : q.type with
    | none => rw [memberTrees_untyped p htype, memberTrees_untyped p htype, ih]
    | some e =>
      rw [memberTrees_typed p htype, memberTrees_typed p htype, ih]
      cases e.tree p <;> cases memberTrees p qs <;> cases memberTrees p qs' <;> rfl

/-- The groups of a request, one after another. -/
theorem requestMembers_performs (path query : Option (List Property)) (body : Option Body) :
    Performs (requestMembers p path query body)
      ((requestTrees p path query body).map fun (ms, b) =>
        ms.map (MemberTree.line memberIndent) ++ b.elim [] BodyTree.lines)
      (under (untypedEvents (path.getD []) ++ untypedEvents (query.getD []) ++
        bodyEvents body)) := by
  refine ((groupLines_performs p path).bind fun pathLines =>
    (groupLines_performs p query).bind fun queryLines =>
      (bodyLines_performs p body).bind fun bodyLines => performs_pure _).congr ?_ fun b => ?_
  · rw [requestTrees, memberTrees_append]
    cases memberTrees p (path.getD []) <;> cases memberTrees p (query.getD []) <;>
      cases bodyTree p body <;> simp [both, Except.map, bind, Except.bind, pure, Except.pure]
  · simp [under]

theorem dropsAncestors_eq (ancestors : List TypeExpr) :
    dropsAncestors p ancestors = (ancestors.isEmpty || isSoleBase p ancestors) := by
  match ancestors with
  | [] => rfl
  | [e] => cases e <;> rfl
  | e :: _ :: _ => cases e <;> rfl

/-- The clause names the ancestors that are written. -/
theorem extendsClause_eq (ancestors : List TypeExpr) : extendsClause p ancestors =
    (TypeExpr.trees p (writtenAncestors p ancestors)).map heritage := by
  rw [extendsClause, dropsAncestors_eq, writtenAncestors]
  cases hbase : isSoleBase p ancestors with
  | true => simp [TypeExpr.trees, Except.map, heritage]
  | false =>
    cases ancestors with
    | nil => rfl
    | cons e es =>
      simp only [List.isEmpty_cons, Bool.or_self, Bool.false_eq_true, if_false, TypeExpr.trees]
      cases e.tree p <;> cases TypeExpr.trees p es <;> rfl

/-- An interface, given what its members do. -/
theorem interfaceLines_performs (h : Header) {members : Logged GenerationError (List String)}
    {inside : Except GenerationError (List MemberTree × Option BodyTree)} {events : List Event}
    (hmembers : Performs members (inside.map fun (ms, b) =>
      ms.map (MemberTree.line memberIndent) ++ b.elim [] BodyTree.lines) (under events)) :
    Performs (interfaceLines p h members)
      ((interfaceTree p h inside).map DeclarationTree.lines) (under events) := by
  refine ((performs_ofExcept (h.line p)).bind fun header =>
    hmembers.bind fun lines => performs_pure _).congr ?_ fun b => List.append_nil _
  rw [interfaceTree, Header.line, extendsClause_eq]
  cases TypeExpr.trees p (writtenAncestors p h.ancestors) <;> cases inside <;> rfl

/-- The warnings about members of a definition. -/
def Definition.events : Definition → List Event
  | .interface _ properties => untypedEvents properties
  | .request _ path query body =>
    untypedEvents (path.getD []) ++ untypedEvents (query.getD []) ++ bodyEvents body
  | _ => []

/-- The lines of a definition, one case for each kind. -/
theorem lines_performs (d : Definition) :
    Performs (d.lines p) ((d.tree p).map DeclarationTree.lines) (under d.events) := by
  cases d with
  | stringAlias name =>
    refine (performs_pure _).congr ?_ fun b => rfl
    simp [Definition.tree, Except.map, DeclarationTree.lines, TypeTree.text, String.append_assoc]
  | numberAlias name =>
    refine (performs_pure _).congr ?_ fun b => rfl
    simp [Definition.tree, Except.map, DeclarationTree.lines, TypeTree.text, String.append_assoc]
  | unionAlias name wraps =>
    refine ((performs_ofExcept (wraps.text p)).bind fun type => performs_pure _).congr ?_
      fun b => rfl
    rw [Definition.tree, TypeExpr.text]
    cases wraps.tree p <;> rfl
  | enumeration name members =>
    refine (performs_pure _).congr ?_ fun b => rfl
    rw [Definition.tree, enumerationLines]
    split
    · rw [Except.map, DeclarationTree.lines, List.map_map]
      rfl
    · rfl
  | interface header properties =>
    refine interfaceLines_performs p header ((memberLines_performs p memberIndent properties).congr
      ?_ fun b => rfl)
    cases memberTrees p properties <;> simp [Except.map]
  | request header path query body =>
    exact interfaceLines_performs p header (requestMembers_performs p path query body)
  | unknown name kind => exact performs_throw _

/-- A declaration is what its lines are joined to. -/
theorem declaration_performs (d : Definition) :
    Performs (d.declaration p) ((d.tree p).map DeclarationTree.text) (under d.events) := by
  refine ((lines_performs p d).bind fun lines => performs_pure _).congr ?_ fun b =>
    List.append_nil _
  cases d.tree p <;> rfl

end Lines

/-! ## Catalogs -/

section Catalogs

variable (p : Profile)

/-- An entry as it is written; nothing for a base type. -/
def entryTree (d : Definition) : Except GenerationError (Option DeclarationTree) :=
  match d.name? with
  | none => .error .namelessEntry
  | some name => if name ∈ p.skipNames then .ok none else (d.tree p).map some

/-- What is logged about an entry. -/
def entryRecords (d : Definition) : List Record :=
  match d.name? with
  | none => []
  | some name => under (if name ∈ p.skipNames then [skippedEvent] else d.events) (some name)

variable {p} {d : Definition} {name : String}

theorem entryTree_nameless (h : d.name? = none) : entryTree p d = .error .namelessEntry := by
  rw [entryTree, h]

theorem entryTree_base (h : d.name? = some name) (hskip : name ∈ p.skipNames) :
    entryTree p d = .ok none := by
  simp only [entryTree, h, if_pos hskip]

theorem entryTree_declared (h : d.name? = some name) (hskip : name ∉ p.skipNames) :
    entryTree p d = (d.tree p).map some := by
  simp only [entryTree, h, if_neg hskip]

variable (p)

/-- An entry: a declaration inside its binding, or a note that it is passed over. -/
theorem entryDeclaration_performs (d : Definition) :
    Performs (entryDeclaration p d) ((entryTree p d).map (·.map DeclarationTree.text))
      fun _ => entryRecords p d := by
  rw [entryDeclaration.eq_def]
  cases hname : d.name? with
  | none => exact (performs_throw _).congr (by rw [entryTree_nameless hname]; rfl) fun b => rfl
  | some name =>
    simp only [entryRecords, hname]
    refine Performs.within ?_ name
    by_cases hskip : name ∈ p.skipNames
    · rw [if_pos hskip, if_pos hskip, entryTree_base hname hskip]
      exact (performs_log _).bind fun _ => performs_pure none
    · rw [if_neg hskip, if_neg hskip, entryTree_declared hname hskip]
      refine ((declaration_performs p d).bind fun code => performs_pure (some code)).congr ?_
        fun b => List.append_nil _
      cases d.tree p <;> rfl

/-- **All entries in order**, up to the first that fails. -/
theorem catalogDeclarations_performs (c : Catalog) :
    Performs (catalogDeclarations p c)
      ((c.mapM (entryTree p)).map (·.map (·.map DeclarationTree.text)))
      fun _ => c.flatMap (entryRecords p) := by
  induction c with
  | nil => exact performs_pure []
  | cons d c ih =>
    refine ((entryDeclaration_performs p d).bind fun declaration => ih.bind fun others =>
      performs_pure _).congr ?_ fun b => ?_
    · rw [List.mapM_cons]
      cases entryTree p d <;> cases c.mapM (entryTree p) <;> rfl
    · simp [under]

/-- What is generated from the entries of a catalog. -/
def output (entries : List (Option DeclarationTree)) : Output :=
  let trees := entries.filterMap id
  { code := namespaceText p.namespaceName (trees.map DeclarationTree.text)
    emitted := trees.length
    skipped := entries.length - trees.length }

/-- **What a run of the generation does.** -/
theorem generate_performs (c : Catalog) :
    Performs (generate p c) ((c.mapM (entryTree p)).map (output p))
      fun _ => c.flatMap (entryRecords p) := by
  refine ((catalogDeclarations_performs p c).bind fun all => performs_pure _).congr ?_ fun b =>
    List.append_nil _
  cases c.mapM (entryTree p) with
  | error e => rfl
  | ok entries =>
    have hdeclarations : (entries.map (·.map DeclarationTree.text)).filterMap id =
        (entries.filterMap id).map DeclarationTree.text := by
      rw [List.filterMap_map, List.map_filterMap]
      rfl
    change Except.ok (Output.mk _ _ (List.length (List.map _ entries) - _)) = _
    rw [hdeclarations, List.length_map, List.length_map]
    rfl

end Catalogs

end TypeCatalog
