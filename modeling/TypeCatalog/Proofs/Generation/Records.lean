import TypeCatalog.Proofs.Generation.Run
import TypeCatalog.Proofs.Related

/-!
# Proofs/Generation/Records — what a run of the generation logs

The records of a run come entry by entry (`LogsAbout`): one for a base type, that it is skipped; for
an interface or a request one for each member without a type; none for any other entry.  Each
carries the name of its own entry, whatever was bound before; and whether the run succeeds or not,
the same is bound after it (`generate_records`).
-/

namespace TypeCatalog

open Failure Log Logged

/-- The members that a body lists. -/
def bodyMembers : Option Body → List Property
  | some (.properties members) => members
  | _ => []

/-- A warning about each member without a type, in the order of the members, under the name of
their definition. -/
def warnings (name : String) (members : List Property) : List Record :=
  (members.filter (·.type.isNone)).map fun q => ⟨untypedEvent q.name, some name⟩

/-- What is logged about an entry. -/
inductive LogsAbout (p : Profile) : Definition → List Record → Prop
  | base {d : Definition} {name : String} : d.name? = some name → name ∈ p.skipNames →
      LogsAbout p d [⟨skippedEvent, some name⟩]
  | interface {h : Header} {members : List Property} : h.name ∉ p.skipNames →
      LogsAbout p (.interface h members) (warnings h.name members)
  /-- The members of the path come first, then those of the query, then those of the body. -/
  | request {h : Header} {path query : Option (List Property)} {body : Option Body} :
      h.name ∉ p.skipNames → LogsAbout p (.request h path query body)
        (warnings h.name (path.getD [] ++ query.getD [] ++ bodyMembers body))
  | other {d : Definition} {name : String} : d.name? = some name → name ∉ p.skipNames →
      (∀ h members, d ≠ .interface h members) →
      (∀ h path query body, d ≠ .request h path query body) → LogsAbout p d []

variable {p : Profile} {d : Definition}

theorem under_untypedEvents (name : String) (members : List Property) :
    under (untypedEvents members) (some name) = warnings name members := by
  rw [under, untypedEvents, List.map_map]
  rfl

theorem bodyEvents_eq (body : Option Body) : bodyEvents body = untypedEvents (bodyMembers body) := by
  cases body with
  | none => rfl
  | some b => cases b <;> rfl

theorem events_request (h : Header) (path query : Option (List Property)) (body : Option Body) :
    (Definition.request h path query body).events =
      untypedEvents (path.getD [] ++ query.getD [] ++ bodyMembers body) := by
  rw [Definition.events, bodyEvents_eq]
  simp only [untypedEvents, List.filter_append, List.map_append]

theorem entryRecords_named {name : String} (h : d.name? = some name) : entryRecords p d =
    under (if name ∈ p.skipNames then [skippedEvent] else d.events) (some name) := by
  rw [entryRecords, h]

/-- An entry that is generated is logged about under its own name. -/
theorem logsAbout_entryRecords {o : Option DeclarationTree} (h : entryTree p d = .ok o) :
    LogsAbout p d (entryRecords p d) := by
  cases hname : d.name? with
  | none =>
    rw [entryTree_nameless hname] at h
    nomatch h
  | some name =>
    rw [entryRecords_named hname]
    by_cases hskip : name ∈ p.skipNames
    · rw [if_pos hskip]
      exact .base hname hskip
    · rw [if_neg hskip]
      cases d with
      | interface header members =>
        obtain rfl := Option.some.inj hname
        rw [Definition.events, under_untypedEvents]
        exact .interface hskip
      | request header path query body =>
        obtain rfl := Option.some.inj hname
        rw [events_request, under_untypedEvents]
        exact .request hskip
      | _ => exact .other hname hskip nofun nofun

/-- What is logged is that an entry is skipped, or that a member is. -/
theorem LogsAbout.event {rs : List Record} (h : LogsAbout p d rs) :
    ∀ r ∈ rs, r.event = skippedEvent ∨ ∃ name, r.event = untypedEvent name := by
  have hwarnings (name : String) (members : List Property) :
      ∀ r ∈ warnings name members, r.event = skippedEvent ∨ ∃ name, r.event = untypedEvent name :=
    List.forall_mem_map.mpr fun q _ => .inr ⟨q.name, rfl⟩
  cases h with
  | base _ _ => exact List.forall_mem_singleton.mpr (.inl rfl)
  | interface _ => exact hwarnings _ _
  | request _ => exact hwarnings _ _
  | other _ _ _ _ => nofun

theorem exists_blocks_of_generate {c : Catalog} {j after : Journal} {out : Output}
    (h : (generate p c).run.run j = (.ok out, after)) :
    ∃ blocks, List.Forall₂ (LogsAbout p) c blocks ∧
      after.records = j.records ++ blocks.flatten := by
  obtain ⟨after', hrun, -, hrecords⟩ := generate_performs p c j
  obtain ⟨hresult, rfl⟩ := Prod.mk.inj (hrun.symm.trans h)
  obtain ⟨entries, hentries, -⟩ := map_eq_ok.mp hresult
  refine ⟨c.map (entryRecords p), ?_, ?_⟩
  · rw [List.forall₂_map_right_iff, List.forall₂_same]
    intro d hd
    obtain ⟨o, ho⟩ := Related.exists_forall₂_iff.mp ⟨entries, mapM_eq_ok.mp hentries⟩ d hd
    exact logsAbout_entryRecords ho
  · rw [hrecords out hresult, List.flatMap_def]

/-- **Every record of a run is about one entry and carries its name**, entry by entry in the order
of the catalog; and after a run, also one that fails, the same is bound as before. -/
theorem generate_records (p : Profile) (c : Catalog) (j : Journal) :
    let (result, after) := (generate p c).run.run j
    after.bound = j.bound ∧
      ∀ out, result = .ok out → ∃ blocks, List.Forall₂ (LogsAbout p) c blocks ∧
        after.records = j.records ++ blocks.flatten := by
  obtain ⟨after, hrun, hbound, -⟩ := generate_performs p c j
  rw [hrun]
  exact ⟨hbound, fun out hout => exists_blocks_of_generate (hrun.trans (congrArg (·, after) hout))⟩

/-- Inside another binding, two of three entries are logged about, each under its own name. -/
example :
    let c : Catalog := [.interface ⟨"ResponseBase", [], []⟩ [⟨"took", none, false⟩],
      .stringAlias "Id", .request ⟨"Get", [], []⟩ (some [⟨"id", none, false⟩]) none
        (some (.properties [⟨"query", none, true⟩]))]
    let after := ((generate {} c).run.run { bound := some "outer" }).2
    after.bound = some "outer" ∧ after.records =
      [⟨skippedEvent, some "ResponseBase"⟩, ⟨untypedEvent "id", some "Get"⟩,
        ⟨untypedEvent "query", some "Get"⟩] :=
  ⟨rfl, rfl⟩

end TypeCatalog
