import TypeCatalog.Proofs.Generation.Declarations

/-!
# Proofs/Generation/EnumMode — the mode of enumerations changes enumerations and nothing else

Two profiles that differ only in how enumerations are written resolve every type and every other
definition to the same tree, and both resolve every enumeration.  So their runs fail alike; if they
succeed they log the same and count the same, and their declarations differ only where an
enumeration is declared (`generate_inMode`).
-/

namespace TypeCatalog

open Failure Log Logged

/-- A profile in a mode of enumerations. -/
def Profile.inMode (p : Profile) (b : Bool) : Profile := { p with enumAsUnion := b }

/-- A definition is an enumeration. -/
def Definition.IsEnumeration (d : Definition) : Prop :=
  ∃ name members, d = .enumeration name members

/-! ## The same trees -/

section Trees

variable {p q : Profile}

theorem TypeExpr.trees_congr {es : List TypeExpr} (h : ∀ e ∈ es, e.tree p = e.tree q) :
    TypeExpr.trees p es = TypeExpr.trees q es := by
  induction es with
  | nil => rfl
  | cons e es ih =>
    obtain ⟨he, hes⟩ := List.forall_mem_cons.mp h
    rw [TypeExpr.trees, TypeExpr.trees, he, ih hes]

/-- Two profiles take the same of the ancestors that are written for the dictionary base. -/
def SameRecords (p q : Profile) (es : List TypeExpr) : Prop :=
  ∀ path n gs, WrittenAt p es path (.implementation n gs) →
    (n = p.dictionaryBase ↔ n = q.dictionaryBase)

theorem SameRecords.mono {es es' : List TypeExpr} (h : SameRecords p q es) (hsubset : es' ⊆ es) :
    SameRecords p q es' := fun _ n gs hat =>
  have ⟨_, hat'⟩ := hat.mono hsubset
  h _ n gs hat'

theorem SameRecords.of_mem {es : List TypeExpr} (h : SameRecords p q es) {e : TypeExpr}
    (he : e ∈ es) : SameRecords p q [e] :=
  h.mono (List.cons_subset.mpr ⟨he, List.nil_subset es⟩)

theorem SameRecords.of_append {es es' : List TypeExpr} (h : SameRecords p q (es ++ es')) :
    SameRecords p q es ∧ SameRecords p q es' :=
  ⟨h.mono (List.subset_append_left ..), h.mono (List.subset_append_right ..)⟩

theorem SameRecords.parts {e : TypeExpr} (h : SameRecords p q [e]) : SameRecords p q (e.parts p) :=
  fun path n gs hat => h (0 :: path) n gs (.part rfl hat)

/-- Of a profile, the written type of an expression depends on which of the ancestors that are
written in it are the dictionary base. -/
theorem TypeExpr.tree_congr_of_sameRecords {e : TypeExpr} (h : SameRecords p q [e]) :
    e.tree p = e.tree q := by
  induction e using TypeExpr.inductParts p with
  | step e ih =>
    have hparts : ∀ part ∈ e.parts p, part.tree p = part.tree q := fun part hpart =>
      ih part hpart (h.parts.of_mem hpart)
    cases e with
    | reference n gs =>
      cases gs with
      | nil => rfl
      | cons g gs =>
        have htrees : trees p (g :: gs) = trees q (g :: gs) := trees_congr hparts
        rw [tree, tree, htrees]
    | implementation n gs =>
      have hbase : n = p.dictionaryBase ↔ n = q.dictionaryBase := h [0] n gs (.item rfl)
      have htrees (hwritten : n = p.dictionaryBase ∨ 1 < gs.length) : trees p gs = trees q gs := by
        rw [parts, if_pos hwritten] at hparts
        exact trees_congr hparts
      rw [tree, tree]
      by_cases hp : n = p.dictionaryBase
      · rw [if_pos hp, if_pos (hbase.mp hp), htrees (.inl hp)]
      · rw [if_neg hp, if_neg (mt hbase.mpr hp)]
        by_cases hlength : 1 < gs.length
        · rw [if_pos hlength, if_pos hlength, htrees (.inr hlength)]
        · rw [if_neg hlength, if_neg hlength]
    | array e => rw [tree, tree, hparts e (by simp [parts])]
    | dictionary k v => rw [tree, tree, hparts k (by simp [parts]), hparts v (by simp [parts])]
    | singleKey v => rw [tree, tree, hparts v (by simp [parts])]
    | union items =>
      have htrees : trees p items = trees q items := trees_congr hparts
      rw [tree, tree, htrees]
    | unknown kind => rfl

theorem TypeExpr.tree_congr (h : p.dictionaryBase = q.dictionaryBase) (e : TypeExpr) :
    e.tree p = e.tree q :=
  tree_congr_of_sameRecords fun _ _ _ _ => by rw [h]

theorem memberTrees_congr (h : p.dictionaryBase = q.dictionaryBase) (qs : List Property) :
    memberTrees p qs = memberTrees q qs := by
  induction qs with
  | nil => rfl
  | cons m qs ih =>
    cases htype : m.type with
    | none => rw [memberTrees_untyped p htype, memberTrees_untyped q htype, ih]
    | some e => rw [memberTrees_typed p htype, memberTrees_typed q htype, ih, e.tree_congr h]

theorem bodyTree_congr (h : p.dictionaryBase = q.dictionaryBase) (body : Option Body) :
    bodyTree p body = bodyTree q body := by
  cases body with
  | none => rfl
  | some b =>
    cases b with
    | properties members => rw [bodyTree, bodyTree, memberTrees_congr h]
    | type e => rw [bodyTree, bodyTree, e.tree_congr h]

end Trees

variable (p : Profile) (b : Bool)

theorem writtenAncestors_inMode (ancestors : List TypeExpr) :
    writtenAncestors (p.inMode b) ancestors = writtenAncestors p ancestors := by
  have hbase : isSoleBase (p.inMode b) ancestors = isSoleBase p ancestors := by
    match ancestors with
    | [] => rfl
    | [e] => cases e <;> rfl
    | e :: _ :: _ => cases e <;> rfl
  rw [writtenAncestors, writtenAncestors, hbase]

theorem interfaceTree_inMode (h : Header)
    (inside : Except GenerationError (List MemberTree × Option BodyTree)) :
    interfaceTree (p.inMode b) h inside = interfaceTree p h inside := by
  have htrees : TypeExpr.trees (p.inMode b) (writtenAncestors p h.ancestors) =
      TypeExpr.trees p (writtenAncestors p h.ancestors) :=
    TypeExpr.trees_congr fun e _ => TypeExpr.tree_congr (p := p.inMode b) (q := p) rfl e
  rw [interfaceTree, interfaceTree, writtenAncestors_inMode, htrees]
  rfl

/-- The mode of enumerations does not change what is no enumeration. -/
theorem tree_inMode {d : Definition} (h : ¬ d.IsEnumeration) :
    d.tree (p.inMode b) = d.tree p := by
  have hbase : (p.inMode b).dictionaryBase = p.dictionaryBase := rfl
  cases d with
  | unionAlias name wraps => rw [Definition.tree, Definition.tree, wraps.tree_congr hbase]
  | enumeration name members => exact absurd ⟨name, members, rfl⟩ h
  | interface header properties =>
    rw [Definition.tree, Definition.tree, interfaceTree_inMode, memberTrees_congr hbase]
  | request header path query body =>
    rw [Definition.tree, Definition.tree, interfaceTree_inMode, requestTrees, requestTrees,
      memberTrees_congr hbase, bodyTree_congr hbase]
  | _ => rfl

/-- …and every enumeration has a tree in both modes. -/
theorem failure?_tree_inMode (d : Definition) :
    failure? (d.tree (p.inMode b)) = failure? (d.tree p) := by
  by_cases h : d.IsEnumeration
  · obtain ⟨name, members, rfl⟩ := h
    rfl
  · rw [tree_inMode p b h]

theorem failure?_entryTree_inMode (d : Definition) :
    failure? (entryTree (p.inMode b) d) = failure? (entryTree p d) := by
  cases hname : d.name? with
  | none => rw [entryTree_nameless hname, entryTree_nameless hname]
  | some name =>
    by_cases hskip : name ∈ p.skipNames
    · rw [entryTree_base hname hskip, entryTree_base (p := p.inMode b) hname hskip]
    · rw [entryTree_declared hname hskip, entryTree_declared (p := p.inMode b) hname hskip,
        failure?_map, failure?_map, failure?_tree_inMode]

/-! ## The same runs, enumerations apart -/

/-- At the place of what is no enumeration stands the same in both modes. -/
theorem getElem?_trees_inMode {ds : List Definition} {trees trees' : List DeclarationTree}
    (h : List.Forall₂ (Resolves p) ds trees) (h' : List.Forall₂ (Resolves (p.inMode b)) ds trees')
    {i : Nat} {d : Definition} (hd : ds[i]? = some d) (hkind : ¬ d.IsEnumeration) :
    trees[i]? = trees'[i]? := by
  induction h generalizing trees' i with
  | nil => cases hd
  | cons hhead _ ih =>
    cases h' with
    | cons hhead' htail' =>
      cases i with
      | zero =>
        obtain rfl := Option.some.inj hd
        rw [Resolves, tree_inMode p b hkind, hhead] at hhead'
        exact congrArg some (Except.ok.inj hhead')
      | succ i => exact ih htail' hd

/-- The entries of a catalog fail alike in both modes. -/
theorem failure?_mapM_entryTree_inMode (c : Catalog) :
    failure? (c.mapM (entryTree (p.inMode b))) = failure? (c.mapM (entryTree p)) := by
  simp only [failure?_mapM, failure?_entryTree_inMode]

/-- **Two runs that differ in the mode of enumerations fail alike, or both succeed, log the same
and count the same, with the same declarations of all that is no enumeration.** -/
theorem generate_inMode (c : Catalog) (j : Journal) :
    (∃ e jp jq, (generate p c).run.run j = (.error e, jp) ∧
      (generate (p.inMode b) c).run.run j = (.error e, jq)) ∨
    ∃ out out' j' declarations declarations',
      (generate p c).run.run j = (.ok out, j') ∧
      (generate (p.inMode b) c).run.run j = (.ok out', j') ∧
      out.emitted = out'.emitted ∧ out.skipped = out'.skipped ∧
      out.code = namespaceText p.namespaceName declarations ∧
      out'.code = namespaceText p.namespaceName declarations' ∧
      declarations.length = declarations'.length ∧
      List.Forall₂ (Declares p) (emittedEntries p c) declarations ∧
      List.Forall₂ (Declares (p.inMode b)) (emittedEntries p c) declarations' ∧
      ∀ (i : Nat) (d : Definition), (emittedEntries p c)[i]? = some d → ¬ d.IsEnumeration →
        declarations[i]? = declarations'[i]? := by
  obtain ⟨jp, hp, hboundp, hrecordsp⟩ := generate_performs p c j
  obtain ⟨jq, hq, hboundq, hrecordsq⟩ := generate_performs (p.inMode b) c j
  have hfail := failure?_mapM_entryTree_inMode p b c
  cases hentries : c.mapM (entryTree p) with
  | error e =>
    rw [hentries] at hp hfail
    rw [failure?_eq_some.mp hfail] at hq
    exact .inl ⟨e, jp, jq, hp, hq⟩
  | ok entries =>
    rw [hentries] at hp hfail hrecordsp
    obtain ⟨entries', hentries'⟩ := failure?_eq_none.mp hfail
    rw [hentries'] at hq hrecordsq
    -- The records depend on the entries alone, not on the mode.
    obtain rfl : jp = jq := by
      cases jp
      cases jq
      simp only [Journal.mk.injEq]
      exact ⟨hboundp.trans hboundq.symm, (hrecordsp _ rfl).trans (hrecordsq _ rfl).symm⟩
    have htrees := resolves_of_mapM hentries
    have htrees' : List.Forall₂ (Resolves (p.inMode b)) (emittedEntries p c)
      (entries'.filterMap id) := resolves_of_mapM hentries'
    have hlength : (entries.filterMap id).length = (entries'.filterMap id).length :=
      htrees.length_eq.symm.trans htrees'.length_eq
    have hentriesLength : entries.length = entries'.length :=
      (mapM_eq_ok.mp hentries).length_eq.symm.trans (mapM_eq_ok.mp hentries').length_eq
    refine .inr ⟨_, _, jp, _, _, hp, hq, hlength, ?_, rfl, rfl, ?_, ?_, ?_, fun i d hd hkind => ?_⟩
    · exact congrArg₂ (· - ·) hentriesLength hlength
    · simpa using hlength
    · exact List.forall₂_map_right_iff.mpr (htrees.imp fun _ _ h => h.declares)
    · exact List.forall₂_map_right_iff.mpr (htrees'.imp fun _ _ h => h.declares)
    · rw [List.getElem?_map, List.getElem?_map, getElem?_trees_inMode p b htrees htrees' hd hkind]

end TypeCatalog
