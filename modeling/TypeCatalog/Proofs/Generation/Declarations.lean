import TypeCatalog.Proofs.Generation.Run
import TypeCatalog.Proofs.Generation.Totality

/-!
# Proofs/Generation/Declarations — one declaration for each entry that has one

The base types have no declaration; of the other entries (`emittedEntries`), each has the one that
it has on its own (`Declares`), and the generated code holds these in the order of the catalog.
-/

namespace TypeCatalog

open Failure Log Logged

variable {p : Profile}

/-- The entries of a catalog that have a declaration. -/
def emittedEntries (p : Profile) (c : Catalog) : Catalog := c.filter fun d => !d.isBase p

/-- On its own, a definition is written as this declaration, whatever was logged before. -/
def Declares (p : Profile) (d : Definition) (text : String) : Prop :=
  ∀ j, ((d.declaration p).run.run j).1 = .ok text

/-- A definition resolves to a tree. -/
def Resolves (p : Profile) (d : Definition) (t : DeclarationTree) : Prop := d.tree p = .ok t

theorem Resolves.declares {d : Definition} {t : DeclarationTree} (h : Resolves p d t) :
    Declares p d t.text := by
  intro j
  obtain ⟨j', hrun, -⟩ := declaration_performs p d j
  rw [hrun, h]
  rfl

/-- What is written for a definition is the text of a tree that it resolves to. -/
theorem Declares.exists_resolves {d : Definition} {text : String} (h : Declares p d text) :
    ∃ t, Resolves p d t ∧ text = t.text := by
  obtain ⟨j', hrun, -⟩ := declaration_performs p d {}
  obtain ⟨t, ht, rfl⟩ := map_eq_ok.mp ((congrArg Prod.fst hrun).symm.trans (h {}))
  exact ⟨t, ht, rfl⟩

theorem isBase_eq {d : Definition} {name : String} (h : d.name? = some name) :
    d.isBase p = decide (name ∈ p.skipNames) := by
  rw [Definition.isBase, h, Option.any_some]

/-- The trees of a catalog are those of its entries that have a declaration. -/
theorem resolves_of_mapM {c : Catalog} {entries : List (Option DeclarationTree)}
    (h : c.mapM (entryTree p) = .ok entries) :
    List.Forall₂ (Resolves p) (emittedEntries p c) (entries.filterMap id) := by
  have heach := mapM_eq_ok.mp h
  clear h
  induction heach with
  | nil => exact .nil
  | @cons d o c entries hd _ ih =>
    cases hname : d.name? with
    | none =>
      rw [entryTree_nameless hname] at hd
      cases hd
    | some name =>
      have hbase := isBase_eq (p := p) hname
      by_cases hskip : name ∈ p.skipNames
      · rw [entryTree_base hname hskip] at hd
        obtain rfl := Except.ok.inj hd
        rw [emittedEntries, List.filter_cons_of_neg (by simp [hbase, hskip])]
        exact ih
      · rw [entryTree_declared hname hskip] at hd
        obtain ⟨t, ht, rfl⟩ := map_eq_ok.mp hd
        rw [emittedEntries, List.filter_cons_of_pos (by simp [hbase, hskip])]
        exact .cons ht ih

/-- **What is generated by a run that succeeds.** -/
theorem exists_trees_of_generate {c : Catalog} {j j' : Journal} {out : Output}
    (h : (generate p c).run.run j = (.ok out, j')) :
    ∃ trees, List.Forall₂ (Resolves p) (emittedEntries p c) trees ∧
      out.code = namespaceText p.namespaceName (trees.map DeclarationTree.text) ∧
      out.emitted = trees.length ∧ out.emitted + out.skipped = c.length := by
  obtain ⟨j₁, hrun, -⟩ := generate_performs p c j
  obtain ⟨entries, hentries, rfl⟩ := map_eq_ok.mp (congrArg Prod.fst (hrun.symm.trans h))
  refine ⟨entries.filterMap id, resolves_of_mapM hentries, rfl, rfl, ?_⟩
  rw [(mapM_eq_ok.mp hentries).length_eq]
  exact Nat.add_sub_cancel' (List.length_filterMap_le id entries)

end TypeCatalog
