import TypeCatalog.Proofs.Layout.Declarations

/-!
# Proofs/Layout/InterfaceLines — the lines of interfaces and requests

The declaration of an interface is cut at its line feeds into a comment of three lines or none, a
header, one line for each member that has a type, in their order, and a closing brace.  A request
has the lines of its path, then of its query, then of its body, which opens a block of its own or is
a line with a type.  A member without a type has a warning in place of a line (`interface_lines`).
-/

namespace TypeCatalog

open Failure Layout Log Logged

variable {p : Profile}

/-! ## Members and their lines -/

/-- The members that have a type. -/
def typed (members : List Property) : List Property := members.filter (·.type.isSome)

/-- The members that have none. -/
def untyped (members : List Property) : List Property := members.filter (·.type.isNone)

/-- The members of a body, if it is no type. -/
def Body.members : Body → List Property
  | properties members => members
  | type _ => []

/-- What an interface or a request has before its members. -/
def Definition.header? : Definition → Option Header
  | interface header _ => some header
  | request header _ _ _ => some header
  | _ => none

theorem Header.names_subset {d : Definition} {h : Header} (hd : d.header? = some h) :
    h.names ⊆ d.names := by
  cases d with
  | interface header members =>
    obtain rfl := Option.some.inj hd
    exact List.subset_append_left ..
  | request header path query body =>
    obtain rfl := Option.some.inj hd
    exact List.Subset.trans (List.subset_append_left ..) (List.subset_append_left ..)
  | _ => cases hd

/-- The members of a definition: of a request, those of its path, its query and its body. -/
def Definition.members : Definition → List Property
  | interface _ members => members
  | request _ path query body => path.getD [] ++ query.getD [] ++ body.elim [] Body.members
  | _ => []

/-- The line of a member: its key, a mark if it may be left out, and its type. -/
def IsMemberLine (p : Profile) (indent : String) (q : Property) (line : String) : Prop :=
  ∃ e type, q.type = some e ∧ e.text p = .ok type ∧
    line = indent ++ memberKey q.name ++ (if q.nullable then "?" else "") ++ ": " ++ type

/-- The lines of a body, behind those of them that are lines of its members. -/
inductive IsBodyBlock (p : Profile) : Option Body → List String → List String → Prop
  | none : IsBodyBlock p none [] []
  | members {members : List Property} {ls : List String} :
      List.Forall₂ (IsMemberLine p "      ") (typed members) ls →
      IsBodyBlock p (some (.properties members)) ls (["    body?: \x7b"] ++ ls ++ ["    \x7d"])
  | type {e : TypeExpr} {type : String} : e.text p = .ok type →
      IsBodyBlock p (some (.type e)) [] ["    body?: " ++ type]

/-- The lines between the header of a definition and its closing brace, behind those of them that
are lines of members. -/
inductive IsInside (p : Profile) : Definition → List String → List String → Prop
  | interface {h : Header} {members : List Property} {ls : List String} :
      List.Forall₂ (IsMemberLine p "    ") (typed members) ls →
      IsInside p (.interface h members) ls ls
  | request {h : Header} {path query : Option (List Property)} {body : Option Body}
      {pathLines queryLines bodyMembers bodyLines : List String} :
      List.Forall₂ (IsMemberLine p "    ") (typed (path.getD [])) pathLines →
      List.Forall₂ (IsMemberLine p "    ") (typed (query.getD [])) queryLines →
      IsBodyBlock p body bodyMembers bodyLines →
      IsInside p (.request h path query body) (pathLines ++ queryLines ++ bodyMembers)
        (pathLines ++ queryLines ++ bodyLines)

/-- The comment above an interface: three lines for a stable name or that of a request or a
response, none for any other. -/
def IsStabilityComment (p : Profile) (name : String) (comment : List String) : Prop :=
  if name ∈ p.stableNames then
    comment = ["  /**", "   * @description Stability: STABLE", "   */"]
  else if "Request".toList <:+ name.toList ∨ "Response".toList <:+ name.toList then
    comment = ["  /**", "   * @description Stability: UNSTABLE", "   */"]
  else comment = []

/-! ## What is resolved is laid out so -/

theorem forall₂_memberLines {indent : String} {qs : List Property} {ms : List MemberTree}
    (h : memberTrees p qs = .ok ms) :
    List.Forall₂ (IsMemberLine p indent) (typed qs) (ms.map (MemberTree.line indent)) := by
  induction qs generalizing ms with
  | nil =>
    obtain rfl := Except.ok.inj h
    exact .nil
  | cons q qs ih =>
    rw [typed, List.filter_cons]
    cases htype : q.type with
    | none =>
      rw [memberTrees_untyped p htype] at h
      exact ih h
    | some e =>
      rw [memberTrees_typed p htype] at h
      obtain ⟨⟨t, ms⟩, hboth, rfl⟩ := map_eq_ok.mp h
      obtain ⟨ht, hms⟩ := both_eq_ok.mp hboth
      exact .cons ⟨e, t.text, htype, map_eq_ok.mpr ⟨t, ht, rfl⟩, rfl⟩ (ih hms)

theorem exists_isBodyBlock {body : Option Body} {b : Option BodyTree}
    (h : bodyTree p body = .ok b) :
    ∃ memberLines, IsBodyBlock p body memberLines (b.elim [] BodyTree.lines) := by
  match body with
  | none =>
    obtain rfl := Except.ok.inj h
    exact ⟨_, .none⟩
  | some (.properties members) =>
    obtain ⟨ms, hms, rfl⟩ := map_eq_ok.mp h
    exact ⟨_, .members (forall₂_memberLines hms)⟩
  | some (.type e) =>
    obtain ⟨t, ht, rfl⟩ := map_eq_ok.mp h
    exact ⟨_, .type (map_eq_ok.mpr ⟨t, ht, rfl⟩)⟩

theorem isStabilityComment_stabilityLines (name : String) :
    IsStabilityComment p name (stabilityLines name p.stableNames) := by
  have hending : Stability.hasEnding name = true ↔
      "Request".toList <:+ name.toList ∨ "Response".toList <:+ name.toList := by
    simp [Stability.hasEnding, Stability.endings]
  rw [IsStabilityComment, stabilityLines, Stability.ofName?]
  simp only [List.contains_iff_mem, hending]
  split
  · rfl
  · split <;> rfl

theorem Header.line_eq_ok {h : Header} {ancestors : List TypeTree}
    (ht : TypeExpr.trees p (writtenAncestors p h.ancestors) = .ok ancestors) :
    h.line p = .ok ("  export interface " ++ h.name ++ openGenericsText h.openGenerics ++
      heritage ancestors ++ " \x7b") := by
  rw [Header.line, extendsClause_eq, ht]
  rfl

/-- The lines of what an interface or a request resolves to. -/
theorem exists_isInside {d : Definition} {h : Header} {t : DeclarationTree}
    (hd : d.header? = some h) (ht : d.tree p = .ok t) :
    ∃ header memberLines inside,
      t.lines = stabilityLines h.name p.stableNames ++ [header] ++ inside ++ ["  \x7d"] ∧
        h.line p = .ok header ∧ IsInside p d memberLines inside := by
  cases d with
  | interface header members =>
    obtain rfl := Option.some.inj hd
    obtain ⟨ancestors, ms, body, hancestors, hinside, rfl⟩ := interfaceTree_eq_ok.mp ht
    obtain ⟨ms', hms, heq⟩ := map_eq_ok.mp hinside
    obtain ⟨rfl, rfl⟩ := Prod.mk.inj heq
    refine ⟨_, _, _, ?_, Header.line_eq_ok hancestors, .interface (forall₂_memberLines hms)⟩
    rw [DeclarationTree.lines, InterfaceTree.lines, Option.elim_none, List.append_nil]
    rfl
  | request header path query body =>
    obtain rfl := Option.some.inj hd
    obtain ⟨ancestors, ms, body, hancestors, hinside, rfl⟩ := interfaceTree_eq_ok.mp ht
    obtain ⟨hms, hbody⟩ := both_eq_ok.mp hinside
    rw [memberTrees_append] at hms
    obtain ⟨⟨pathMembers, queryMembers⟩, hboth, rfl⟩ := map_eq_ok.mp hms
    obtain ⟨hpath, hquery⟩ := both_eq_ok.mp hboth
    obtain ⟨bodyMembers, hblock⟩ := exists_isBodyBlock hbody
    refine ⟨_, _, _, ?_, Header.line_eq_ok hancestors,
      .request (forall₂_memberLines hpath) (forall₂_memberLines hquery) hblock⟩
    rw [DeclarationTree.lines, InterfaceTree.lines, List.map_append]
    rfl
  | stringAlias => cases hd
  | numberAlias => cases hd
  | unionAlias => cases hd
  | enumeration => cases hd
  | unknown => cases hd

/-! ## Every member has a line or a warning -/

theorem IsBodyBlock.length_eq {body : Option Body} {memberLines lines : List String}
    (h : IsBodyBlock p body memberLines lines) :
    memberLines.length = (typed (body.elim [] Body.members)).length := by
  cases h with
  | none => rfl
  | members hls => exact hls.length_eq.symm
  | type => rfl

theorem typed_append (qs qs' : List Property) : typed (qs ++ qs') = typed qs ++ typed qs' :=
  List.filter_append ..

theorem IsInside.length_eq {d : Definition} {memberLines inside : List String}
    (h : IsInside p d memberLines inside) : memberLines.length = (typed d.members).length := by
  cases h with
  | interface hls => exact hls.length_eq.symm
  | request hpath hquery hbody =>
    rw [Definition.members, typed_append, typed_append, List.length_append, List.length_append,
      List.length_append, List.length_append, hbody.length_eq, hpath.length_eq, hquery.length_eq]

theorem length_typed_add_untyped (qs : List Property) :
    (typed qs).length + (untyped qs).length = qs.length := by
  simpa [typed, untyped] using (List.length_eq_length_filter_add (l := qs) (·.type.isSome)).symm

/-- What is logged about a definition is a warning about each of its members without a type. -/
theorem events_eq (d : Definition) :
    d.events = (untyped d.members).map fun q => untypedEvent q.name := by
  cases d with
  | request header path query body =>
    rw [Definition.events, Definition.members, untyped, List.filter_append, List.filter_append,
      List.map_append, List.map_append]
    cases body with
    | none => rfl
    | some b => cases b <;> rfl
  | interface => rfl
  | stringAlias => rfl
  | numberAlias => rfl
  | unionAlias => rfl
  | enumeration => rfl
  | unknown => rfl

theorem representations_eq_nil {d : Definition} {h : Header} (hd : d.header? = some h) :
    d.representations = [] := by
  cases d with
  | enumeration => cases hd
  | _ => rfl

/-! ## The lines of a declaration -/

/-- **The lines of an interface or a request.**  Every member has a line or a warning: the lines of
members and the warnings are as many as the members. -/
theorem interface_lines {d : Definition} {h : Header} (hd : d.header? = some h)
    (hnames : ∀ n ∈ d.names, OneLine n) {j j' : Journal} {text : String}
    (hrun : (d.declaration p).run.run j = (.ok text, j')) :
    ∃ comment header memberLines inside,
      linesOf text = comment ++ [header] ++ inside ++ ["  \x7d"] ∧
      IsStabilityComment p h.name comment ∧ h.line p = .ok header ∧
      IsInside p d memberLines inside ∧
      j'.records = j.records ++ (untyped d.members).map (fun q => ⟨untypedEvent q.name, j.bound⟩) ∧
      memberLines.length + (untyped d.members).length = d.members.length := by
  obtain ⟨j₁, hperforms, -, hrecords⟩ := declaration_performs p d j
  obtain ⟨hresult, rfl⟩ := Prod.mk.inj (hperforms.symm.trans hrun)
  obtain ⟨t, ht, rfl⟩ := map_eq_ok.mp hresult
  obtain ⟨header, memberLines, inside, hlines, hheader, hinside⟩ := exists_isInside hd ht
  have hblock : IsBlock t.lines :=
    Resolves.isBlock ht hnames (by simp [representations_eq_nil hd])
  refine ⟨_, header, memberLines, inside, ?_, isStabilityComment_stabilityLines h.name, hheader,
    hinside, ?_, ?_⟩
  · rw [DeclarationTree.text, hblock.linesOf_intercalate, hlines]
  · rw [hrecords _ hresult, events_eq, under, List.map_map]
    rfl
  · rw [hinside.length_eq, length_typed_add_untyped]

/-- A request with members in its path, its query and its body, of which one has no type. -/
def findRequest : Definition :=
  .request ⟨"FindRequest", [], []⟩ (some [⟨"index", some (.reference "string" []), false⟩])
    (some [⟨"trace", none, true⟩, ⟨"page.size", some (.reference "integer" []), true⟩])
    (some (.properties [⟨"sort", some (.array (.reference "Sort" [])), true⟩]))

/-- Of its four members, three have a line. -/
theorem findRequest_lines :
    ∃ comment header memberLines inside text j',
      (findRequest.declaration {}).run.run {} = (.ok text, j') ∧
      linesOf text = comment ++ [header] ++ inside ++ ["  \x7d"] ∧
      IsStabilityComment {} "FindRequest" comment ∧
      Header.line {} ⟨"FindRequest", [], []⟩ = .ok header ∧
      IsInside {} findRequest memberLines inside ∧
      j'.records = [] ++ (untyped findRequest.members).map
        (fun q => ⟨untypedEvent q.name, none⟩) ∧
      memberLines.length + (untyped findRequest.members).length = findRequest.members.length := by
  obtain ⟨comment, header, memberLines, inside, hlines⟩ :=
    interface_lines (p := {}) (d := findRequest) (j := {}) rfl (by decide) rfl
  exact ⟨comment, header, memberLines, inside, _, _, rfl, hlines⟩

end TypeCatalog
