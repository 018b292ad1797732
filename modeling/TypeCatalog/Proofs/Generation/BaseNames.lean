import TypeCatalog.Proofs.Generation.EnumMode
import TypeCatalog.Proofs.Layout.InterfaceLines

/-!
# Proofs/Generation/BaseNames — base names act through the profile only

A base name counts where it names an entry, where it names the only ancestor of an interface, and
where it names a written ancestor that may become a record (`Definition.UsesAsBase`).  Two profiles
with different base names, of which a catalog uses none so, write the same types, hence the same
members, headers and declarations: what they generate is the same computation, in its result and in
its log.  Any other name is ordinary, those that are base names by default included
(`generate_baseNames`).
-/

namespace TypeCatalog

open Failure Log Logged

/-- Two profiles differ in their base names at most. -/
structure Profile.SameButBases (p q : Profile) : Prop where
  namespaceName : p.namespaceName = q.namespaceName
  enumAsUnion : p.enumAsUnion = q.enumAsUnion
  stableNames : p.stableNames = q.stableNames

/-- A definition uses a name where a base name counts. -/
inductive Definition.UsesAsBase (p : Profile) (d : Definition) (n : String) : Prop
  | entry : d.name? = some n → d.UsesAsBase p n
  | ancestor {h : Header} {e : TypeExpr} :
      d.header? = some h → h.ancestors = [e] → e.referencedName? = some n → d.UsesAsBase p n
  | record {path : List Nat} {gs : List TypeExpr} :
      WrittenAt p (d.writtenTypes p) path (.implementation n gs) → d.UsesAsBase p n

/-- A name has no effect of its own: an entry of that name is declared, the only ancestor of an
interface is kept, and an ancestor with several generics is written as a reference. -/
structure IsOrdinary (p : Profile) (n : String) : Prop where
  entry : ∀ d : Definition, d.name? = some n →
    entryDeclaration p d = Logged.within n do return some (← d.declaration p)
  ancestor : ∀ e : TypeExpr, e.referencedName? = some n →
    extendsClause p [e] = (e.text p).map (" extends " ++ ·)
  implementation : ∀ gs, TypeExpr.text p (.implementation n gs) =
    if 1 < gs.length then TypeExpr.text p (.reference n gs) else .ok n

variable {p q : Profile}

/-! ## The same types and members -/

theorem TypeExpr.text_congr {e : TypeExpr} (h : SameRecords p q [e]) : e.text p = e.text q := by
  rw [text, text, tree_congr_of_sameRecords h]

theorem memberLines_congr {qs : List Property} (h : SameRecords p q (memberTypes qs))
    (indent : String) : memberLines p indent qs = memberLines q indent qs := by
  induction qs with
  | nil => rfl
  | cons m qs ih =>
    rw [memberTypes, List.filterMap_cons] at h
    cases htype : m.type with
    | none =>
      rw [htype] at h
      simp only [memberLines, htype, ih h]
    | some e =>
      rw [htype] at h
      have htext : e.text p = e.text q := TypeExpr.text_congr (h.mono (by simp))
      simp only [memberLines, htype, htext, ih (h.mono (List.subset_cons_self ..))]

theorem groupLines_congr {group : Option (List Property)}
    (h : SameRecords p q (memberTypes (group.getD []))) :
    groupLines p group = groupLines q group := by
  cases group with
  | none => rfl
  | some members => exact memberLines_congr h memberIndent

theorem bodyLines_congr {body : Option Body} (h : SameRecords p q (bodyTypes body)) :
    bodyLines p body = bodyLines q body := by
  match body with
  | none => rfl
  | some (.properties members) => rw [bodyLines, bodyLines, memberLines_congr h]
  | some (.type e) => rw [bodyLines, bodyLines, TypeExpr.text_congr h]

/-! ## The same declarations -/

theorem Header.line_congr {h : Header}
    (hancestors : writtenAncestors p h.ancestors = writtenAncestors q h.ancestors)
    (hrecords : SameRecords p q (writtenAncestors p h.ancestors)) : h.line p = h.line q := by
  have htrees : TypeExpr.trees p (writtenAncestors p h.ancestors) =
      TypeExpr.trees q (writtenAncestors p h.ancestors) :=
    TypeExpr.trees_congr fun e he =>
      TypeExpr.tree_congr_of_sameRecords (hrecords.of_mem he)
  rw [Header.line, Header.line, extendsClause_eq, extendsClause_eq, ← hancestors, htrees]

/-- Profiles that agree on the ancestors and on the records of a definition write it alike. -/
theorem Definition.lines_congr {d : Definition} (hsame : p.SameButBases q)
    (hancestors : ∀ h, d.header? = some h →
      writtenAncestors p h.ancestors = writtenAncestors q h.ancestors)
    (hrecords : SameRecords p q (d.writtenTypes p)) : d.lines p = d.lines q := by
  cases d with
  | stringAlias name => rfl
  | numberAlias name => rfl
  | unionAlias name wraps => rw [lines, lines, TypeExpr.text_congr hrecords]
  | enumeration name members =>
    rw [lines, lines, enumerationLines, enumerationLines, hsame.enumAsUnion]
  | interface header properties =>
    obtain ⟨hheader, hmembers⟩ := hrecords.of_append
    rw [lines, lines, interfaceLines, interfaceLines, hsame.stableNames,
      Header.line_congr (hancestors header rfl) hheader, memberLines_congr hmembers]
  | request header path query body =>
    obtain ⟨hgroups, hbody⟩ := hrecords.of_append
    obtain ⟨hgroups, hquery⟩ := hgroups.of_append
    obtain ⟨hheader, hpath⟩ := hgroups.of_append
    rw [lines, lines, interfaceLines, interfaceLines, requestMembers, requestMembers,
      hsame.stableNames, Header.line_congr (hancestors header rfl) hheader,
      groupLines_congr hpath, groupLines_congr hquery, bodyLines_congr hbody]
  | unknown name kind => rfl

/-! ## The same computation -/

/-- What is no base name is no sole base. -/
theorem writtenAncestors_of_unused {ancestors : List TypeExpr}
    (h : ∀ e, ancestors = [e] → e.referencedName? ≠ some p.responseBase) :
    writtenAncestors p ancestors = ancestors := by
  have hbase : ¬ isSoleBase p ancestors := by
    rw [isSoleBase_iff]
    rintro ⟨gs, rfl | rfl⟩
    · exact h _ rfl rfl
    · exact h _ rfl rfl
  rw [writtenAncestors, if_neg hbase]

/-- Of a definition that uses none of their base names, two profiles make the same. -/
theorem entryDeclaration_congr {d : Definition} (hsame : p.SameButBases q)
    (hunused : ∀ n ∈ p.skipNames ++ q.skipNames, ¬ d.UsesAsBase p n) :
    entryDeclaration p d = entryDeclaration q d := by
  have hancestors : ∀ h, d.header? = some h →
      writtenAncestors p h.ancestors = writtenAncestors q h.ancestors := by
    intro h hd
    rw [writtenAncestors_of_unused fun e he hn =>
        hunused p.responseBase (by simp [Profile.skipNames]) (.ancestor hd he hn),
      writtenAncestors_of_unused fun e he hn =>
        hunused q.responseBase (by simp [Profile.skipNames]) (.ancestor hd he hn)]
  have hrecords : SameRecords p q (d.writtenTypes p) := by
    intro path n gs hat
    have hp : n ≠ p.dictionaryBase := fun hn =>
      hunused n (by simp [Profile.skipNames, hn]) (.record hat)
    have hq : n ≠ q.dictionaryBase := fun hn =>
      hunused n (by simp [Profile.skipNames, hn]) (.record hat)
    simp only [hp, hq]
  rw [entryDeclaration, entryDeclaration]
  cases hname : d.name? with
  | none => rfl
  | some name =>
    have hskip : name ∉ p.skipNames ∧ name ∉ q.skipNames :=
      ⟨fun h => hunused name (List.mem_append_left _ h) (.entry hname),
        fun h => hunused name (List.mem_append_right _ h) (.entry hname)⟩
    simp only [if_neg hskip.1, if_neg hskip.2]
    rw [Definition.declaration, Definition.declaration,
      Definition.lines_congr hsame hancestors hrecords]

theorem catalogDeclarations_congr {c : Catalog} (hsame : p.SameButBases q)
    (hunused : ∀ n ∈ p.skipNames ++ q.skipNames, ∀ d ∈ c, ¬ d.UsesAsBase p n) :
    catalogDeclarations p c = catalogDeclarations q c := by
  induction c with
  | nil => rfl
  | cons d c ih =>
    rw [catalogDeclarations, catalogDeclarations,
      entryDeclaration_congr hsame fun n hn => hunused n hn d List.mem_cons_self,
      ih fun n hn d hd => hunused n hn d (List.mem_cons_of_mem _ hd)]

/-! ## Names that do not occur -/

theorem TypeExpr.namesOf_parts (e : TypeExpr) : namesOf (e.parts p) ⊆ e.names := by
  cases e with
  | implementation n gs =>
    rw [parts]
    split
    · exact List.subset_cons_self ..
    · exact List.nil_subset _
  | _ => simp [parts, names, namesOf]

theorem WrittenAt.names_subset {es : List TypeExpr} {path : List Nat} {e : TypeExpr}
    (h : WrittenAt p es path e) : e.names ⊆ TypeExpr.namesOf es := by
  induction h with
  | item he => exact fun n hn => TypeExpr.mem_namesOf.mpr ⟨_, List.mem_of_getElem? he, hn⟩
  | @part es i e part path he _ ih =>
    exact fun n hn => TypeExpr.mem_namesOf.mpr
      ⟨e, List.mem_of_getElem? he, e.namesOf_parts (ih hn)⟩

theorem namesOf_memberTypes (qs : List Property) :
    TypeExpr.namesOf (memberTypes qs) ⊆ qs.flatMap Property.names := by
  intro n hn
  obtain ⟨e, he, hn⟩ := TypeExpr.mem_namesOf.mp hn
  obtain ⟨m, hm, htype⟩ := List.mem_filterMap.mp he
  refine List.mem_flatMap.mpr ⟨m, hm, List.mem_cons_of_mem _ ?_⟩
  rwa [htype]

theorem namesOf_bodyTypes (body : Option Body) :
    TypeExpr.namesOf (bodyTypes body) ⊆ body.elim [] Body.names := by
  match body with
  | none => exact List.nil_subset _
  | some (.properties members) => exact namesOf_memberTypes members
  | some (.type e) => simp [bodyTypes, TypeExpr.namesOf, Body.names]

/-- A definition writes types with its own names only. -/
theorem Definition.namesOf_writtenTypes (d : Definition) :
    TypeExpr.namesOf (d.writtenTypes p) ⊆ d.names := by
  have hancestors (h : Header) :
      TypeExpr.namesOf (writtenAncestors p h.ancestors) ⊆ h.names :=
    List.Subset.trans (TypeExpr.namesOf_subset (writtenAncestors_subset h.ancestors))
      (by simp [Header.names])
  cases d with
  | unionAlias name wraps => simp [writtenTypes, TypeExpr.namesOf, names]
  | interface header properties =>
    have := hancestors header
    have := namesOf_memberTypes properties
    rw [writtenTypes, TypeExpr.namesOf_append, names]
    grind
  | request header path query body =>
    have := hancestors header
    have := namesOf_memberTypes (path.getD [])
    have := namesOf_memberTypes (query.getD [])
    have := namesOf_bodyTypes body
    rw [writtenTypes, TypeExpr.namesOf_append, TypeExpr.namesOf_append, TypeExpr.namesOf_append,
      names, List.flatMap_append]
    grind
  | _ => exact List.nil_subset _

/-- What a definition uses as a base name is one of its names. -/
theorem Definition.UsesAsBase.mem_names {d : Definition} {n : String} (h : d.UsesAsBase p n) :
    n ∈ d.names := by
  cases h with
  | entry hname => cases d <;> cases hname <;> simp [names, Header.names]
  | @ancestor h e hd he hn =>
    refine Header.names_subset hd (List.mem_cons_of_mem _ (List.mem_append_right _ ?_))
    rw [he]
    cases e <;> cases hn <;> simp [TypeExpr.namesOf, TypeExpr.names]
  | record hat => exact d.namesOf_writtenTypes (hat.names_subset (by simp [TypeExpr.names]))

/-! ## Ordinary names -/

theorem isOrdinary_of_not_mem {n : String} (h : n ∉ p.skipNames) : IsOrdinary p n where
  entry d hd := by
    simp only [entryDeclaration, hd, if_neg h]
  ancestor e he := by
    have hkept : dropsAncestors p [e] = false := by
      have hne : n ≠ p.responseBase := fun hn => h (by simp [Profile.skipNames, hn])
      simp [dropsAncestors, he, hne]
    rw [extendsClause, hkept, TypeExpr.text]
    simp only [Bool.false_eq_true, if_false, TypeExpr.trees]
    cases e.tree p with
    | error err => rfl
    | ok t => exact congrArg (Except.ok <| " extends " ++ ·) (String.intercalate_singleton ..)
  implementation gs := by
    have hne : n ≠ p.dictionaryBase := fun hn => h (by simp [Profile.skipNames, hn])
    rw [TypeExpr.text, TypeExpr.tree, if_neg hne]
    cases gs with
    | nil => rfl
    | cons g gs =>
      split
      · rfl
      · rfl

/-- **Base names act through the profile only.**  Where a catalog uses none of the base names of two
profiles that agree otherwise, they generate the same; and a name that is no base name of a profile
has no effect of its own. -/
theorem generate_baseNames :
    (∀ (p q : Profile) (c : Catalog), p.SameButBases q →
      (∀ n ∈ p.skipNames ++ q.skipNames, ∀ d ∈ c, ¬ d.UsesAsBase p n) →
        generate p c = generate q c) ∧
      ∀ (p : Profile) (n : String), n ∉ p.skipNames → IsOrdinary p n := by
  refine ⟨fun p q c hsame hunused => ?_, fun p n => isOrdinary_of_not_mem⟩
  rw [generate, generate, catalogDeclarations_congr hsame hunused, hsame.namespaceName]

/-- A profile with base names of its own. -/
def withBases (response dictionary : String) : Profile :=
  { responseBase := response, dictionaryBase := dictionary }

/-- A catalog that uses the default base names as base names are used. -/
def defaultBasesCatalog : Catalog :=
  [.interface ⟨"ResponseBase", [], []⟩ [⟨"took", some (.reference "long" []), false⟩],
   .interface ⟨"GetResponse", [], [.reference "ResponseBase" []]⟩ [],
   .interface ⟨"ListResponse", ["T"],
    [.implementation "DictionaryResponseBase" [.reference "string" [], .reference "T" []]]⟩ []]

/-- Two profiles with other base names generate the same from it. -/
theorem defaultBasesCatalog_generated :
    generate (withBases "Root" "Table") defaultBasesCatalog =
        generate (withBases "Base" "Map") defaultBasesCatalog ∧
      IsOrdinary (withBases "Root" "Table") "ResponseBase" ∧
      IsOrdinary (withBases "Root" "Table") "DictionaryResponseBase" := by
  refine ⟨generate_baseNames.1 _ _ _ ⟨rfl, rfl, rfl⟩ fun n hn d hd huse => ?_,
    generate_baseNames.2 _ _ (by decide), generate_baseNames.2 _ _ (by decide)⟩
  have hapart : ∀ n ∈ ["Root", "Table", "Base", "Map"], ∀ d ∈ defaultBasesCatalog, n ∉ d.names := by
    decide
  exact hapart n hn d hd huse.mem_names

end TypeCatalog
