import TypeCatalog.Proofs.Syntax.Declarations

/-!
# Proofs/Syntax/WellFormed — when nothing is left out of the declaration of a definition

A definition is well-formed (`Definition.IsWellFormed`) if what it writes leaves no hole: no union
without items, no dictionary base without generics, no ancestor that stands for anything but a
name, and no enumeration without members where enumerations are unions.  These are the definitions
whose declaration has nothing left out (`Definition.isFull_iff`).
-/

namespace TypeCatalog

open Failure

variable {p : Profile}

/-! ## Expressions -/

/-- An expression of which nothing is written between its marks: a union without items, and the
record that the dictionary base without generics is. -/
def TypeExpr.IsHollow (p : Profile) : TypeExpr → Prop
  | union items => items = []
  | implementation n generics => n = p.dictionaryBase ∧ generics = []
  | _ => False

/-- No hollow expression is written. -/
def IsWhole (p : Profile) (es : List TypeExpr) : Prop :=
  ∀ path e, WrittenAt p es path e → ¬ e.IsHollow p

theorem isWhole_nil : IsWhole p [] := fun _ _ h => absurd h WrittenAt.not_nil

theorem isWhole_cons {e : TypeExpr} {es : List TypeExpr} :
    IsWhole p (e :: es) ↔ IsWhole p [e] ∧ IsWhole p es := by
  constructor
  · intro h
    refine ⟨fun path x hx => h path x (WrittenAt.cons_list_iff.mpr (.inl hx)), fun path x hx => ?_⟩
    cases path with
    | nil => exact absurd hx WrittenAt.not_nil_path
    | cons i path => exact h _ x (WrittenAt.cons_list_iff.mpr (.inr ⟨i, path, rfl, hx⟩))
  · rintro ⟨hhead, htail⟩ path x hx
    obtain hx | ⟨i, path', -, hx⟩ := WrittenAt.cons_list_iff.mp hx
    · exact hhead path x hx
    · exact htail _ x hx

theorem isWhole_iff_forall {es : List TypeExpr} :
    IsWhole p es ↔ ∀ e ∈ es, IsWhole p [e] := by
  induction es with
  | nil => exact iff_of_true isWhole_nil nofun
  | cons e es ih => rw [isWhole_cons, ih, List.forall_mem_cons]

theorem isWhole_append {es es' : List TypeExpr} :
    IsWhole p (es ++ es') ↔ IsWhole p es ∧ IsWhole p es' := by
  rw [isWhole_iff_forall, List.forall_mem_append, ← isWhole_iff_forall, ← isWhole_iff_forall]

/-- An expression is whole if it is not hollow and its parts are whole. -/
theorem isWhole_singleton {e : TypeExpr} :
    IsWhole p [e] ↔ ¬ e.IsHollow p ∧ IsWhole p (e.parts p) := by
  constructor
  · intro h
    refine ⟨h [0] e (.item rfl), fun path x hx => h (0 :: path) x (.part rfl hx)⟩
  · rintro ⟨hself, hparts⟩ path x hx
    obtain ⟨path', -, ⟨-, rfl⟩ | hx⟩ := WrittenAt.singleton_iff.mp hx
    · exact hself
    · exact hparts path' x hx

namespace TypeTree

theorem isFull_apply_iff {n : String} {ts : List TypeTree} :
    IsFull (.apply n ts) ↔ ts ≠ [] ∧ ∀ t ∈ ts, t.IsFull :=
  ⟨fun | .apply hne hts => ⟨hne, hts⟩, fun ⟨hne, hts⟩ => .apply hne hts⟩

theorem isFull_array_iff {t : TypeTree} : IsFull (.array t) ↔ t.IsFull :=
  ⟨fun | .array h => h, .array⟩

theorem isFull_union_iff {ts : List TypeTree} :
    IsFull (.union ts) ↔ ts ≠ [] ∧ ∀ t ∈ ts, t.IsFull :=
  ⟨fun | .union hne hts => ⟨hne, hts⟩, fun ⟨hne, hts⟩ => .union hne hts⟩

end TypeTree

/-- The types of several expressions are full if those of each are. -/
theorem forall_isFull_iff_of {es : List TypeExpr}
    (h : ∀ e ∈ es, ∀ t, e.tree p = .ok t → (t.IsFull ↔ IsWhole p [e])) {ts : List TypeTree}
    (hts : TypeExpr.trees p es = .ok ts) : (∀ t ∈ ts, t.IsFull) ↔ IsWhole p es := by
  rw [isWhole_iff_forall]
  exact (Related.forall_mem_iff (fun e he t ht => (h e he t ht).symm)
    (TypeExpr.trees_eq_ok.mp hts)).symm

/-- As many types are written as there are expressions. -/
theorem trees_eq_nil_iff {es : List TypeExpr} {ts : List TypeTree}
    (hts : TypeExpr.trees p es = .ok ts) : ts = [] ↔ es = [] := by
  rw [← List.length_eq_zero_iff, ← List.length_eq_zero_iff,
    (TypeExpr.trees_eq_ok.mp hts).length_eq]

/-- **The type of an expression is full if and only if no hollow expression is written.** -/
theorem TypeExpr.isFull_iff {e : TypeExpr} {t : TypeTree} (h : e.tree p = .ok t) :
    t.IsFull ↔ IsWhole p [e] := by
  induction e using TypeExpr.inductParts p generalizing t with
  | step e ih =>
    have hparts {ts : List TypeTree} (hts : trees p (e.parts p) = .ok ts) :
        (∀ t ∈ ts, t.IsFull) ↔ IsWhole p (e.parts p) :=
      forall_isFull_iff_of (fun e he t => ih e he) hts
    rw [isWhole_singleton]
    cases e with
    | reference n gs =>
      cases gs with
      | nil =>
        obtain rfl := Except.ok.inj h
        exact iff_of_true (.name n) ⟨id, isWhole_nil⟩
      | cons g gs =>
        obtain ⟨ts, hts, rfl⟩ := map_eq_ok.mp h
        rw [TypeTree.isFull_apply_iff, hparts hts, ne_eq, trees_eq_nil_iff hts]
        simp [IsHollow]
    | implementation n gs =>
      rw [tree] at h
      rw [parts] at hparts ⊢
      rw [IsHollow]
      split at h
      · rename_i hbase
        rw [if_pos (.inl hbase)] at hparts ⊢
        obtain ⟨ts, hts, rfl⟩ := map_eq_ok.mp h
        rw [TypeTree.isFull_apply_iff, hparts hts, ne_eq, trees_eq_nil_iff hts]
        simp [hbase]
      · rename_i hbase
        split at h
        · rename_i hlen
          rw [if_pos (.inr hlen)] at hparts ⊢
          obtain ⟨ts, hts, rfl⟩ := map_eq_ok.mp h
          rw [TypeTree.isFull_apply_iff, hparts hts, ne_eq, trees_eq_nil_iff hts]
          simp only [hbase, false_and, not_false_eq_true, true_and, and_iff_right_iff_imp]
          rintro - rfl
          simp at hlen
        · rename_i hlen
          obtain rfl := Except.ok.inj h
          rw [if_neg (by simp [hbase, hlen])]
          exact iff_of_true (.name n) ⟨fun h => hbase h.1, isWhole_nil⟩
    | array element =>
      obtain ⟨t, ht, rfl⟩ := map_eq_ok.mp h
      rw [TypeTree.isFull_array_iff, ih element (List.mem_singleton_self _) ht]
      exact (and_iff_right id).symm
    | dictionary k v =>
      obtain ⟨tk, htk, h⟩ := bind_eq_ok.mp h
      obtain ⟨tv, htv, h⟩ := bind_eq_ok.mp h
      obtain rfl := Except.ok.inj h
      rw [TypeTree.record, TypeTree.isFull_apply_iff,
        hparts (trees_eq_ok.mpr (.cons htk (.cons htv .nil)))]
      exact and_congr_left fun _ => iff_of_true (List.cons_ne_nil _ _) id
    | singleKey v =>
      obtain ⟨tv, htv, rfl⟩ := map_eq_ok.mp h
      rw [TypeTree.record, TypeTree.isFull_apply_iff, List.forall_mem_cons,
        hparts (trees_eq_ok.mpr (.cons htv .nil))]
      exact and_congr (iff_of_true (List.cons_ne_nil _ _) id) (and_iff_right (.name _))
    | union items =>
      obtain ⟨ts, hts, rfl⟩ := map_eq_ok.mp h
      rw [TypeTree.isFull_union_iff, hparts hts, ne_eq, trees_eq_nil_iff hts]
      rfl
    | unknown kind => cases h

theorem forall_isFull_iff {es : List TypeExpr} {ts : List TypeTree}
    (hts : TypeExpr.trees p es = .ok ts) : (∀ t ∈ ts, t.IsFull) ↔ IsWhole p es :=
  forall_isFull_iff_of (fun _ _ _ => TypeExpr.isFull_iff) hts

/-- An expression stands for a name, with or without arguments: a union of one expression stands
for that. -/
inductive TypeExpr.IsNamed : TypeExpr → Prop
  | reference (name : String) (generics : List TypeExpr) : IsNamed (.reference name generics)
  | implementation (name : String) (generics : List TypeExpr) :
      IsNamed (.implementation name generics)
  | dictionary (key value : TypeExpr) : IsNamed (.dictionary key value)
  | singleKey (value : TypeExpr) : IsNamed (.singleKey value)
  | union {e : TypeExpr} : IsNamed e → IsNamed (.union [e])

/-- **The type of an expression stands for a name if and only if the expression does.** -/
theorem TypeExpr.isNamed_iff {e : TypeExpr} {t : TypeTree} (h : e.tree p = .ok t) :
    t.IsNamed ↔ e.IsNamed := by
  induction e using TypeExpr.induct generalizing t with
  | reference n gs =>
    refine iff_of_true ?_ (.reference n gs)
    cases gs with
    | nil => obtain rfl := Except.ok.inj h; exact .head trivial
    | cons g gs => obtain ⟨ts, -, rfl⟩ := map_eq_ok.mp h; exact .head trivial
  | implementation n gs =>
    refine iff_of_true ?_ (.implementation n gs)
    rw [tree] at h
    split at h
    · obtain ⟨ts, -, rfl⟩ := map_eq_ok.mp h; exact .head trivial
    · split at h
      · obtain ⟨ts, -, rfl⟩ := map_eq_ok.mp h; exact .head trivial
      · obtain rfl := Except.ok.inj h; exact .head trivial
  | array element =>
    obtain ⟨t, -, rfl⟩ := map_eq_ok.mp h
    refine iff_of_false TypeTree.not_isNamed_array fun hnamed => ?_
    cases hnamed
  | dictionary k v =>
    obtain ⟨tk, -, h⟩ := bind_eq_ok.mp h
    obtain ⟨tv, -, h⟩ := bind_eq_ok.mp h
    obtain rfl := Except.ok.inj h
    exact iff_of_true (.head trivial) (.dictionary k v)
  | singleKey v =>
    obtain ⟨tv, -, rfl⟩ := map_eq_ok.mp h
    exact iff_of_true (.head trivial) (.singleKey v)
  | union items ih =>
    obtain ⟨ts, hts, rfl⟩ := map_eq_ok.mp h
    rw [TypeTree.isNamed_union_iff]
    have heach := trees_eq_ok.mp hts
    constructor
    · rintro ⟨t, rfl, ht⟩
      obtain ⟨e, _, he, hnil, rfl⟩ := List.forall₂_cons_right_iff.mp heach
      obtain rfl := List.forall₂_nil_right_iff.mp hnil
      exact .union ((ih e (List.mem_singleton_self e) he).mp ht)
    · rintro (_ | _ | _ | _ | @⟨e, he⟩)
      obtain ⟨t, _, ht, hnil, rfl⟩ := List.forall₂_cons_left_iff.mp heach
      obtain rfl := List.forall₂_nil_left_iff.mp hnil
      exact ⟨t, rfl, (ih e (List.mem_singleton_self e) ht).mpr he⟩
  | unknown kind => cases h

/-! ## Definitions -/

theorem forall_members_isFull_iff {qs : List Property} {ms : List MemberTree}
    (h : memberTrees p qs = .ok ms) :
    (∀ m ∈ ms, m.type.IsFull) ↔ IsWhole p (memberTypes qs) := by
  induction qs generalizing ms with
  | nil =>
    obtain rfl := Except.ok.inj h
    exact iff_of_true nofun isWhole_nil
  | cons q qs ih =>
    rw [memberTypes, List.filterMap_cons]
    cases htype : q.type with
    | none =>
      rw [memberTrees_untyped p htype] at h
      exact ih h
    | some e =>
      rw [memberTrees_typed p htype] at h
      obtain ⟨⟨t, ms⟩, hboth, rfl⟩ := map_eq_ok.mp h
      obtain ⟨ht, hms⟩ := both_eq_ok.mp hboth
      rw [List.forall_mem_cons, isWhole_cons]
      exact and_congr (e.isFull_iff ht) (ih hms)

theorem body_isFull_iff {body : Option Body} {b : Option BodyTree} (h : bodyTree p body = .ok b) :
    (∀ tree, b = some tree → tree.IsFull) ↔ IsWhole p (bodyTypes body) := by
  cases body with
  | none =>
    obtain rfl := Except.ok.inj h
    exact iff_of_true nofun isWhole_nil
  | some body =>
    cases body with
    | properties members =>
      obtain ⟨ms, hms, rfl⟩ := map_eq_ok.mp h
      rw [bodyTypes, ← forall_members_isFull_iff hms]
      exact ⟨fun h => h _ rfl, fun h tree htree => Option.some.inj htree ▸ h⟩
    | type e =>
      obtain ⟨t, ht, rfl⟩ := map_eq_ok.mp h
      rw [bodyTypes, ← e.isFull_iff ht]
      exact ⟨fun h => h _ rfl, fun h tree htree => Option.some.inj htree ▸ h⟩

/-- The ancestors that a definition names. -/
def Definition.heritage (p : Profile) : Definition → List TypeExpr
  | interface header _ => writtenAncestors p header.ancestors
  | request header _ _ _ => writtenAncestors p header.ancestors
  | _ => []

/-- A definition leaves no hole where it is written. -/
structure Definition.IsWellFormed (p : Profile) (d : Definition) : Prop where
  /-- It writes no union without items, and no dictionary base without generics. -/
  whole : IsWhole p (d.writtenTypes p)
  /-- Its ancestors stand for names. -/
  ancestors : ∀ e ∈ d.heritage p, e.IsNamed
  /-- It has members if it is an enumeration that becomes a union. -/
  members : p.enumAsUnion → ∀ name, d ≠ .enumeration name []

/-- What is no enumeration is well-formed if its types are whole and its ancestors stand for
names. -/
theorem Definition.isWellFormed_iff {d : Definition}
    (h : ∀ name members, d ≠ .enumeration name members) : d.IsWellFormed p ↔
      IsWhole p (d.writtenTypes p) ∧ ∀ e ∈ d.heritage p, e.IsNamed :=
  ⟨fun hd => ⟨hd.whole, hd.ancestors⟩, fun ⟨hwhole, hnamed⟩ =>
    ⟨hwhole, hnamed, fun _ name => h name []⟩⟩

/-- The types of ancestors are full and stand for names if the ancestors are whole and do. -/
theorem forall_ancestors_iff {es : List TypeExpr} {ts : List TypeTree}
    (hts : TypeExpr.trees p es = .ok ts) :
    (∀ t ∈ ts, t.IsFull ∧ t.IsNamed) ↔ IsWhole p es ∧ ∀ e ∈ es, e.IsNamed := by
  have hnamed : (∀ e ∈ es, e.IsNamed) ↔ ∀ t ∈ ts, t.IsNamed :=
    Related.forall_mem_iff (fun _ _ _ ht => (TypeExpr.isNamed_iff ht).symm)
      (TypeExpr.trees_eq_ok.mp hts)
  rw [hnamed, ← forall_isFull_iff hts]
  exact ⟨fun h => ⟨fun t ht => (h t ht).1, fun t ht => (h t ht).2⟩,
    fun h t ht => ⟨h.1 t ht, h.2 t ht⟩⟩

theorem interface_isFull_iff {h : Header} {es : List TypeExpr}
    {inside : Except GenerationError (List MemberTree × Option BodyTree)}
    (hinside : ∀ ms b, inside = .ok (ms, b) →
      ((∀ m ∈ ms, m.type.IsFull) ∧ (∀ tree, b = some tree → tree.IsFull) ↔ IsWhole p es))
    {t : DeclarationTree} (ht : interfaceTree p h inside = .ok t) :
    t.IsFull ↔ IsWhole p (writtenAncestors p h.ancestors ++ es) ∧
      ∀ e ∈ writtenAncestors p h.ancestors, e.IsNamed := by
  obtain ⟨ancestors, members, body, hancestors, hmembers, rfl⟩ := interfaceTree_eq_ok.mp ht
  rw [isWhole_append, and_right_comm, ← forall_ancestors_iff hancestors,
    ← hinside members body hmembers]
  exact ⟨fun h => ⟨h.ancestors, h.members, h.body⟩, fun ⟨ha, hm, hb⟩ => ⟨ha, hm, hb⟩⟩

/-- **Nothing is left out of the declaration of a definition if and only if it is well-formed.** -/
theorem Definition.isFull_iff {d : Definition} {t : DeclarationTree} (h : d.tree p = .ok t) :
    t.IsFull ↔ d.IsWellFormed p := by
  cases d with
  | stringAlias name =>
    obtain rfl := Except.ok.inj h
    exact iff_of_true (.name _) ⟨isWhole_nil, nofun, fun _ _ => nofun⟩
  | numberAlias name =>
    obtain rfl := Except.ok.inj h
    exact iff_of_true (.name _) ⟨isWhole_nil, nofun, fun _ _ => nofun⟩
  | unionAlias name wraps =>
    obtain ⟨type, htype, rfl⟩ := map_eq_ok.mp h
    rw [isWellFormed_iff (d := unionAlias name wraps) fun _ _ => nofun]
    exact (wraps.isFull_iff htype).trans (and_iff_left nofun).symm
  | enumeration name members =>
    obtain rfl := Except.ok.inj h
    have hmembers : (enumeration name members).IsWellFormed p ↔ p.enumAsUnion → members ≠ [] := by
      refine ⟨?_, fun hne => ⟨isWhole_nil, nofun, fun hunion other heq => ?_⟩⟩
      · rintro hd hunion rfl
        exact hd.members hunion name rfl
      · exact hne hunion (enumeration.inj heq).2
    rw [hmembers]
    split
    · rename_i hunion
      exact List.map_eq_nil_iff.not.trans ⟨fun hne _ => hne, fun hne => hne hunion⟩
    · rename_i hblock
      exact iff_of_true trivial fun hunion => absurd hunion hblock
  | interface header properties =>
    rw [isWellFormed_iff (d := interface header properties) fun _ _ => nofun]
    refine interface_isFull_iff (fun ms b hinside => ?_) h
    obtain ⟨ms', hms, heq⟩ := map_eq_ok.mp hinside
    obtain ⟨rfl, rfl⟩ := Prod.mk.inj heq
    rw [← forall_members_isFull_iff hms]
    exact and_iff_left nofun
  | request header path query body =>
    rw [isWellFormed_iff (d := request header path query body) fun _ _ => nofun]
    rw [writtenTypes, List.append_assoc, List.append_assoc]
    refine interface_isFull_iff (fun ms b hinside => ?_) h
    obtain ⟨hms, hb⟩ := both_eq_ok.mp hinside
    rw [← List.append_assoc, memberTypes, memberTypes, ← List.filterMap_append, isWhole_append]
    exact and_congr (forall_members_isFull_iff hms) (body_isFull_iff hb)
  | unknown name kind => cases h

end TypeCatalog
