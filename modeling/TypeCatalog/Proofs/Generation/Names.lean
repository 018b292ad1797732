import TypeCatalog.Proofs.Generation.DeclarationTree
import TypeCatalog.Proofs.WrittenType.Names

/-!
# Proofs/Generation/Names — where the names of a declaration come from

Resolving a definition makes up no names: those of its declaration are names in the definition, or
names of the written language (`Definition.names_tree`).  The same goes for what stands for the
members of enumerations (`Definition.representations_tree`).
-/

namespace TypeCatalog

open Failure

/-! ## The names in definitions and declarations -/

/-- The names in a member. -/
def Property.names (q : Property) : List String := q.name :: (q.type.elim [] TypeExpr.names)

/-- The names in a header. -/
def Header.names (h : Header) : List String :=
  h.name :: (h.openGenerics ++ TypeExpr.namesOf h.ancestors)

/-- The names in a body. -/
def Body.names : Body → List String
  | properties members => members.flatMap Property.names
  | type e => e.names

/-- The names in a definition, at any depth. -/
def Definition.names : Definition → List String
  | stringAlias name => [name]
  | numberAlias name => [name]
  | unionAlias name wraps => name :: wraps.names
  | enumeration name members => name :: members.map (·.name)
  | interface header properties => header.names ++ properties.flatMap Property.names
  | request header path query body =>
    header.names ++ (path.getD [] ++ query.getD []).flatMap Property.names ++
      body.elim [] Body.names
  | unknown name _ => name.toList

/-- What stands for the members of an enumeration. -/
def Definition.representations : Definition → List String
  | enumeration _ members => members.map (·.representation)
  | _ => []

/-- The names in a written member. -/
def MemberTree.names (m : MemberTree) : List String := m.name :: m.type.names

/-- The names in a written body. -/
def BodyTree.names : BodyTree → List String
  | members ms => ms.flatMap MemberTree.names
  | type t => t.names

/-- The names in a written interface. -/
def InterfaceTree.names (i : InterfaceTree) : List String :=
  i.name :: (i.openGenerics ++ TypeTree.namesOf i.ancestors) ++
    i.members.flatMap MemberTree.names ++ i.body.elim [] BodyTree.names

namespace DeclarationTree

/-- The names in a declaration. -/
def names : DeclarationTree → List String
  | typeAlias name type => name :: type.names
  | literals name _ => [name]
  | enumeration name members => name :: members.map (·.name)
  | interface tree => tree.names

/-- What stands for the members of an enumeration, in its declaration. -/
def representations : DeclarationTree → List String
  | literals _ representations => representations
  | enumeration _ members => members.map (·.representation)
  | _ => []

end DeclarationTree

/-! ## Resolving makes up no names -/

variable {p : Profile}

/-- Written members have the names of the members. -/
theorem names_memberTrees {qs : List Property} {ms : List MemberTree}
    (h : memberTrees p qs = .ok ms) :
    ms.flatMap MemberTree.names ⊆ qs.flatMap Property.names ++ languageNames := by
  induction qs generalizing ms with
  | nil =>
    obtain rfl := Except.ok.inj h
    exact List.nil_subset _
  | cons q qs ih =>
    rw [List.flatMap_cons]
    cases htype : q.type with
    | none =>
      rw [memberTrees_untyped p htype] at h
      have := ih h
      grind
    | some e =>
      rw [memberTrees_typed p htype] at h
      obtain ⟨⟨t, ms⟩, hboth, rfl⟩ := map_eq_ok.mp h
      obtain ⟨ht, hms⟩ := both_eq_ok.mp hboth
      have := e.names_tree ht
      have := ih hms
      rw [List.flatMap_cons, MemberTree.names, Property.names, htype, Option.elim_some]
      grind

theorem names_bodyTree {body : Option Body} {b : Option BodyTree} (h : bodyTree p body = .ok b) :
    b.elim [] BodyTree.names ⊆ body.elim [] Body.names ++ languageNames := by
  cases body with
  | none =>
    obtain rfl := Except.ok.inj h
    exact List.nil_subset _
  | some body =>
    cases body with
    | properties members =>
      obtain ⟨ms, hms, rfl⟩ := map_eq_ok.mp h
      exact names_memberTrees hms
    | type e =>
      obtain ⟨t, ht, rfl⟩ := map_eq_ok.mp h
      exact e.names_tree ht

/-- What an interface is made of. -/
theorem interfaceTree_eq_ok {h : Header}
    {inside : Except GenerationError (List MemberTree × Option BodyTree)} {t : DeclarationTree} :
    interfaceTree p h inside = .ok t ↔ ∃ ancestors members body,
      TypeExpr.trees p (writtenAncestors p h.ancestors) = .ok ancestors ∧
        inside = .ok (members, body) ∧ t = .interface
          ⟨Stability.ofName? h.name p.stableNames, h.name, h.openGenerics, ancestors, members,
            body⟩ := by
  simp only [interfaceTree, map_eq_ok, both_eq_ok, Prod.exists, and_assoc, eq_comm (b := t)]

theorem writtenAncestors_subset (ancestors : List TypeExpr) :
    writtenAncestors p ancestors ⊆ ancestors := by
  rw [writtenAncestors]
  split
  · exact List.nil_subset _
  · exact List.Subset.refl _

theorem namesOf_writtenAncestors {es : List TypeExpr} {ts : List TypeTree}
    (h : TypeExpr.trees p (writtenAncestors p es) = .ok ts) :
    TypeTree.namesOf ts ⊆ TypeExpr.namesOf es ++ languageNames := fun _ hn =>
  (List.mem_append.mp (TypeExpr.namesOf_trees h hn)).elim
    (fun hn => List.mem_append_left _
      (TypeExpr.namesOf_subset (writtenAncestors_subset es) hn))
    (List.mem_append_right _)

theorem names_interfaceTree {h : Header}
    {inside : Except GenerationError (List MemberTree × Option BodyTree)} {names : List String}
    (hinside : ∀ ms b, inside = .ok (ms, b) →
      ms.flatMap MemberTree.names ++ b.elim [] BodyTree.names ⊆ names ++ languageNames)
    {t : DeclarationTree} (ht : interfaceTree p h inside = .ok t) :
    t.names ⊆ h.names ++ names ++ languageNames := by
  obtain ⟨ancestors, members, body, hancestors, hmembers, rfl⟩ := interfaceTree_eq_ok.mp ht
  have := namesOf_writtenAncestors hancestors
  have := hinside members body hmembers
  rw [DeclarationTree.names, InterfaceTree.names, Header.names]
  grind

/-- **A declaration has the names of its definition, and names of the language.** -/
theorem Definition.names_tree {d : Definition} {t : DeclarationTree} (h : d.tree p = .ok t) :
    t.names ⊆ d.names ++ languageNames := by
  cases d with
  | stringAlias name =>
    obtain rfl := Except.ok.inj h
    simp [DeclarationTree.names, TypeTree.names, names, languageNames]
  | numberAlias name =>
    obtain rfl := Except.ok.inj h
    simp [DeclarationTree.names, TypeTree.names, names, languageNames]
  | unionAlias name wraps =>
    obtain ⟨type, htype, rfl⟩ := map_eq_ok.mp h
    exact List.cons_subset_cons _ (wraps.names_tree htype)
  | enumeration name members =>
    obtain rfl := Except.ok.inj h
    split <;> simp [DeclarationTree.names, names]
  | interface header properties =>
    refine names_interfaceTree (fun ms b hinside => ?_) h
    obtain ⟨ms', hms, heq⟩ := map_eq_ok.mp hinside
    obtain ⟨rfl, rfl⟩ := Prod.mk.inj heq
    rw [Option.elim_none, List.append_nil]
    exact names_memberTrees hms
  | request header path query body =>
    rw [names, List.append_assoc header.names]
    refine names_interfaceTree (fun ms b hinside => ?_) h
    obtain ⟨hms, hb⟩ := both_eq_ok.mp hinside
    have := names_memberTrees hms
    have := names_bodyTree hb
    grind
  | unknown name kind => cases h

/-- …and the representations of its definition. -/
theorem Definition.representations_tree {d : Definition} {t : DeclarationTree}
    (h : d.tree p = .ok t) : t.representations ⊆ d.representations := by
  cases d with
  | stringAlias name => obtain rfl := Except.ok.inj h; exact List.nil_subset _
  | numberAlias name => obtain rfl := Except.ok.inj h; exact List.nil_subset _
  | unionAlias name wraps =>
    obtain ⟨type, -, rfl⟩ := map_eq_ok.mp h
    exact List.nil_subset _
  | enumeration name members =>
    obtain rfl := Except.ok.inj h
    split <;> exact List.Subset.refl _
  | interface header properties =>
    obtain ⟨ancestors, members, body, -, -, rfl⟩ := interfaceTree_eq_ok.mp h
    exact List.nil_subset _
  | request header path query body =>
    obtain ⟨ancestors, members, body, -, -, rfl⟩ := interfaceTree_eq_ok.mp h
    exact List.nil_subset _
  | unknown name kind => cases h

end TypeCatalog
