import TypeCatalog.Proofs.Generation.Declarations
import TypeCatalog.Proofs.Layout.Declarations

/-!
# Proofs/Generation/Composition — a catalog is generated entry by entry

What an entry is written as does not depend on the entries around it (`entryText?`), and a catalog
that is generated is generated as the entries that are written, in its order (`generated`,
`generate_eq_ok_iff`).  So two catalogs one after the other are generated as each of them is, and
the order of the entries is that of the declarations and makes no other difference
(`generate_append`).
-/

namespace TypeCatalog

open Failure Log Logged

variable {p : Profile} {c c' : Catalog} {j j' : Journal} {out : Output}

/-! ## What comes of each entry -/

/-- The declaration of an entry on its own; none for a base type. -/
def entryText? (p : Profile) (d : Definition) : Option String :=
  match entryTree p d with
  | .ok t => t.map DeclarationTree.text
  | .error _ => none

/-- What is generated from a catalog when no entry fails. -/
def generated (p : Profile) (c : Catalog) : Output where
  code := namespaceText p.namespaceName (c.filterMap (entryText? p))
  emitted := (c.filterMap (entryText? p)).length
  skipped := c.length - (c.filterMap (entryText? p)).length

theorem entryText?_eq_some {d : Definition} {text : String} (h : entryText? p d = some text) :
    Declares p d text := by
  rw [entryText?.eq_def] at h
  cases hname : d.name? with
  | none =>
    rw [entryTree_nameless hname] at h
    cases h
  | some name =>
    by_cases hskip : name ∈ p.skipNames
    · rw [entryTree_base hname hskip] at h
      cases h
    · rw [entryTree_declared hname hskip] at h
      cases htree : d.tree p with
      | error e =>
        rw [htree] at h
        cases h
      | ok t =>
        rw [htree] at h
        cases h
        exact Resolves.declares htree

/-- Of the entries that do not fail, the base types have no declaration. -/
theorem entryText?_eq_none_iff {d : Definition} (h : failure? (entryTree p d) = none) :
    entryText? p d = none ↔ d.isBase p := by
  rw [entryText?.eq_def]
  cases hname : d.name? with
  | none =>
    rw [entryTree_nameless hname] at h
    cases h
  | some name =>
    rw [isBase_eq hname]
    by_cases hskip : name ∈ p.skipNames
    · simp [entryTree_base hname hskip, hskip]
    · rw [entryTree_declared hname hskip] at h ⊢
      obtain ⟨o, ho⟩ := failure?_eq_none.mp h
      obtain ⟨t, -, rfl⟩ := map_eq_ok.mp ho
      simp [ho, hskip]

theorem filterMap_entryText? {entries : List (Option DeclarationTree)}
    (h : c.mapM (entryTree p) = .ok entries) :
    c.filterMap (entryText? p) = (entries.filterMap id).map DeclarationTree.text := by
  have heach := mapM_eq_ok.mp h
  clear h
  induction heach with
  | nil => rfl
  | @cons d o c entries hd _ ih =>
    have htext : entryText? p d = o.map DeclarationTree.text := by rw [entryText?, hd]
    cases o with
    | none => exact (List.filterMap_cons_none htext).trans ih
    | some t => exact (List.filterMap_cons_some htext).trans (congrArg (t.text :: ·) ih)

theorem output_eq_generated {entries : List (Option DeclarationTree)}
    (h : c.mapM (entryTree p) = .ok entries) : output p entries = generated p c := by
  rw [generated, filterMap_entryText? h, List.length_map, (mapM_eq_ok.mp h).length_eq]
  rfl

/-! ## What comes of a catalog -/

/-- **A catalog is generated if and only if no entry fails, and as the entries that are written**;
what is logged about the entries is added to the journal. -/
theorem generate_eq_ok_iff : (generate p c).run.run j = (.ok out, j') ↔
    (∀ d ∈ c, failure? (entryTree p d) = none) ∧ out = generated p c ∧
      j' = { j with records := j.records ++ c.flatMap (entryRecords p) } := by
  obtain ⟨j₁, hrun, hbound, hrecords⟩ := generate_performs p c j
  have hfails : (∀ d ∈ c, failure? (entryTree p d) = none) ↔
      failure? (c.mapM (entryTree p)) = none := by
    rw [failure?_mapM, List.findSome?_eq_none_iff]
  rw [hfails, failure?_eq_none, hrun, Prod.mk.injEq]
  cases hentries : c.mapM (entryTree p) with
  | error e => exact ⟨nofun, nofun⟩
  | ok entries =>
    have hj₁ : j₁ = { j with records := j.records ++ c.flatMap (entryRecords p) } := by
      rw [← hrecords _ (by rw [hentries]; rfl), ← hbound]
    rw [Except.map, output_eq_generated hentries, Except.ok.injEq, hj₁]
    refine ⟨fun ⟨hout, hj⟩ => ⟨⟨entries, rfl⟩, hout.symm, hj.symm⟩, fun ⟨_, hout, hj⟩ =>
      ⟨hout.symm, hj.symm⟩⟩

/-- A catalog that is not generated fails as its first entry that does. -/
theorem generate_eq_error_iff {e : GenerationError} :
    ((generate p c).run.run j).1 = .error e ↔
      c.findSome? (fun d => failure? (entryTree p d)) = some e := by
  obtain ⟨j₁, hrun, -⟩ := generate_performs p c j
  rw [hrun, ← failure?_eq_some, failure?_map, failure?_mapM]

/-! ## Catalogs one after another -/

/-- A text between the lines of a namespace. -/
def enclosed (name inner : String) : String :=
  "declare namespace " ++ name ++ " \x7b\n" ++ inner ++ "\n\x7d\n\nexport default " ++ name

/-- What stands between the declarations of two catalogs: a blank line, unless one of them has no
declarations. -/
def separator (emitted emitted' : Nat) : String :=
  if emitted = 0 ∨ emitted' = 0 then "" else "\n\n"

theorem intercalate_append (texts texts' : List String) :
    "\n\n".intercalate (texts ++ texts') = "\n\n".intercalate texts ++
      separator texts.length texts'.length ++ "\n\n".intercalate texts' := by
  by_cases h : texts = []
  · simp [h, separator]
  · by_cases h' : texts' = []
    · simp [h', separator]
    · rw [String.intercalate_append_of_ne_nil h h', separator, if_neg]
      simp [h, h']

/-- **Two catalogs one after the other are generated as each of them is, and fail as the first of
them that does; a catalog in another order is generated as the same declarations in that order.** -/
theorem generate_append (p : Profile) (c c' : Catalog) (j : Journal) :
    (∀ out out' j₁ j₂, (generate p c).run.run j = (.ok out, j₁) →
      (generate p c').run.run j = (.ok out', j₂) →
      ∃ whole records records' inner inner',
        (generate p (c ++ c')).run.run j =
          (.ok whole, { j with records := j.records ++ (records ++ records') }) ∧
        j₁ = { j with records := j.records ++ records } ∧
        j₂ = { j with records := j.records ++ records' } ∧
        whole.emitted = out.emitted + out'.emitted ∧ whole.skipped = out.skipped + out'.skipped ∧
        out.code = enclosed p.namespaceName inner ∧ out'.code = enclosed p.namespaceName inner' ∧
        whole.code = enclosed p.namespaceName
          (inner ++ separator out.emitted out'.emitted ++ inner')) ∧
    (∀ e, ((generate p c).run.run j).1 = .error e →
      ((generate p (c ++ c')).run.run j).1 = .error e) ∧
    (∀ out j₁ e, (generate p c).run.run j = (.ok out, j₁) →
      ((generate p c').run.run j).1 = .error e →
      ((generate p (c ++ c')).run.run j).1 = .error e) ∧
    (∀ out j₁ other, (generate p c).run.run j = (.ok out, j₁) → c.Perm other →
      ∃ out' j₂ declaration?, (generate p other).run.run j = (.ok out', j₂) ∧
        out'.emitted = out.emitted ∧ out'.skipped = out.skipped ∧
        (∀ d ∈ c, declaration? d = none ↔ d.isBase p) ∧
        (∀ d ∈ c, ∀ text, declaration? d = some text → Declares p d text) ∧
        out.code = namespaceText p.namespaceName (c.filterMap declaration?) ∧
        out'.code = namespaceText p.namespaceName (other.filterMap declaration?)) := by
  refine ⟨fun out out' j₁ j₂ h h' => ?_, fun e h => ?_, fun out j₁ e h h' => ?_,
    fun out j₁ other h hperm => ?_⟩
  · obtain ⟨hc, rfl, rfl⟩ := generate_eq_ok_iff.mp h
    obtain ⟨hc', rfl, rfl⟩ := generate_eq_ok_iff.mp h'
    have hle (c : Catalog) : (c.filterMap (entryText? p)).length ≤ c.length :=
      List.length_filterMap_le _ _
    refine ⟨generated p (c ++ c'), c.flatMap (entryRecords p), c'.flatMap (entryRecords p), _, _,
      generate_eq_ok_iff.mpr ⟨List.forall_mem_append.mpr ⟨hc, hc'⟩, rfl, ?_⟩, rfl, rfl, ?_, ?_,
      namespaceText_eq _ _, namespaceText_eq _ _, ?_⟩
    · rw [List.flatMap_append]
    · simp only [generated, List.filterMap_append, List.length_append]
    · have := hle c
      have := hle c'
      simp only [generated, List.filterMap_append, List.length_append]
      omega
    · rw [generated, List.filterMap_append, namespaceText_eq, intercalate_append]
      rfl
  · rw [generate_eq_error_iff] at h ⊢
    rw [List.findSome?_append, h, Option.some_or]
  · rw [generate_eq_error_iff] at h' ⊢
    obtain ⟨hc, -⟩ := generate_eq_ok_iff.mp h
    rw [List.findSome?_append, List.findSome?_eq_none_iff.mpr hc, Option.none_or, h']
  · obtain ⟨hc, rfl, rfl⟩ := generate_eq_ok_iff.mp h
    have hother : ∀ d ∈ other, failure? (entryTree p d) = none := fun d hd =>
      hc d (hperm.mem_iff.mpr hd)
    have hlength := (hperm.filterMap (entryText? p)).length_eq
    refine ⟨generated p other, _, entryText? p, generate_eq_ok_iff.mpr ⟨hother, rfl, rfl⟩,
      hlength.symm, ?_, fun d hd => entryText?_eq_none_iff (hc d hd),
      fun d _ text => entryText?_eq_some, rfl, rfl⟩
    simp only [generated, hlength, hperm.length_eq]

/-- A catalog of an interface with a member that has no type. -/
def hitCatalog : Catalog :=
  [.interface ⟨"Hit", ["T"], []⟩
    [⟨"score", none, false⟩, ⟨"source", some (.reference "T" []), false⟩]]

/-- It is generated after another as it is alone. -/
theorem searchCatalog_append :
    ∃ out out' j₁ j₂, (generate {} searchCatalog).run.run {} = (.ok out, j₁) ∧
      (generate {} hitCatalog).run.run {} = (.ok out', j₂) ∧
      ∃ whole records records' inner inner',
        (generate {} (searchCatalog ++ hitCatalog)).run.run {} =
          (.ok whole, { records := [] ++ (records ++ records') }) ∧
        j₁ = { records := [] ++ records } ∧ j₂ = { records := [] ++ records' } ∧
        whole.emitted = out.emitted + out'.emitted ∧ whole.skipped = out.skipped + out'.skipped ∧
        out.code = enclosed "T" inner ∧ out'.code = enclosed "T" inner' ∧
        whole.code = enclosed "T" (inner ++ separator out.emitted out'.emitted ++ inner') :=
  ⟨_, _, _, _, rfl, rfl, (generate_append {} searchCatalog hitCatalog {}).1 _ _ _ _ rfl rfl⟩

end TypeCatalog
