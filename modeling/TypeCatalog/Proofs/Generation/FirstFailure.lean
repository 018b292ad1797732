import TypeCatalog.Proofs.Generation.Run

/-!
# Proofs/Generation/FirstFailure — generation fails exactly on the first defect that it meets

An entry of a catalog is defective if it has no name; or if it is no base type and is no definition,
or writes a value that is no type expression.  `generate_fails_iff` says that generation fails if
and only if some entry is defective, and with the first defect: that of the first such entry and,
inside it, that of the value at the least path (`FirstUnknown`): ancestors before members, the
members of the path before those of the query and these before the body, and inside an expression
from left to right.
-/

namespace TypeCatalog

open Failure Log Logged

variable {p : Profile}

/-- An entry is defective, and this is its first defect. -/
inductive Definition.FailsWith (p : Profile) : Definition → GenerationError → Prop
  | nameless {d : Definition} : d.name? = none → FailsWith p d .namelessEntry
  | noDefinition {name kind : String} : name ∉ p.skipNames →
      FailsWith p (.unknown (some name) kind) (.unknownDefinition kind)
  | noType {d : Definition} {name kind : String} {path : List Nat} : d.name? = some name →
      name ∉ p.skipNames → FirstUnknown p (d.writtenTypes p) path kind →
      FailsWith p d (.unknownType kind)

/-- A definition with a name that has a declaration fails with the first value that is no type
expression. -/
theorem failure?_entryTree_eq_some {d : Definition} {name : String} {e : GenerationError}
    (hname : d.name? = some name) (hskip : name ∉ p.skipNames)
    (hknown : ∀ name kind, d ≠ .unknown name kind) :
    failure? (entryTree p d) = some e ↔
      ∃ path kind, FirstUnknown p (d.writtenTypes p) path kind ∧ e = .unknownType kind := by
  rw [entryTree_declared hname hskip, failure?_map, d.failure?_tree hknown,
    failure?_trees_eq_some]

/-- **An entry fails with its first defect.** -/
theorem failure?_entryTree {d : Definition} {e : GenerationError} :
    failure? (entryTree p d) = some e ↔ d.FailsWith p e := by
  constructor
  · intro h
    cases hname : d.name? with
    | none =>
      rw [entryTree_nameless hname] at h
      cases h
      exact .nameless hname
    | some name =>
      by_cases hskip : name ∈ p.skipNames
      · rw [entryTree_base hname hskip] at h
        cases h
      · by_cases hunknown : ∃ kind, d = .unknown (some name) kind
        · obtain ⟨kind, rfl⟩ := hunknown
          rw [entryTree_declared rfl hskip] at h
          cases h
          exact .noDefinition hskip
        · have hknown : ∀ name kind, d ≠ .unknown name kind := by
            rintro other kind rfl
            exact hunknown ⟨kind, congrArg (Definition.unknown · kind) hname⟩
          obtain ⟨path, kind, hfirst, rfl⟩ := (failure?_entryTree_eq_some hname hskip hknown).mp h
          exact .noType hname hskip hfirst
  · intro h
    cases h with
    | nameless hname => rw [entryTree_nameless hname]; rfl
    | noDefinition hskip => rw [entryTree_declared rfl hskip]; rfl
    | noType hname hskip hfirst =>
      refine (failure?_entryTree_eq_some hname hskip ?_).mpr ⟨_, _, hfirst, rfl⟩
      rintro name kind rfl
      exact WrittenAt.not_nil hfirst.1

/-- **Generation fails if and only if some entry is defective, with the first defect of the first
such entry.** -/
theorem generate_fails_iff (p : Profile) (c : Catalog) (j : Journal) :
    (∀ e, ((generate p c).run.run j).1 = .error e ↔
      ∃ before d after, c = before ++ d :: after ∧ d.FailsWith p e ∧
        ∀ d' ∈ before, ∀ e', ¬ d'.FailsWith p e') ∧
    ((∃ e, ((generate p c).run.run j).1 = .error e) ↔ ∃ d ∈ c, ∃ e, d.FailsWith p e) := by
  obtain ⟨j', hrun, -⟩ := generate_performs p c j
  have hfirst (e : GenerationError) : ((generate p c).run.run j).1 = .error e ↔
      c.findSome? (fun d => failure? (entryTree p d)) = some e := by
    rw [hrun, ← failure?_eq_some, failure?_map, failure?_mapM]
  constructor
  · intro e
    rw [hfirst, List.findSome?_eq_some_iff]
    simp only [failure?_entryTree, Option.eq_none_iff_forall_ne_some, ne_eq]
  · simp only [hfirst, ← Option.isSome_iff_exists, List.findSome?_isSome_iff]
    simp only [Option.isSome_iff_exists, failure?_entryTree]

end TypeCatalog
