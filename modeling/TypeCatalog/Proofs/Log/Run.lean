import TypeCatalog.Proofs.Log.Levels
import TypeCatalog.Proofs.Log.Lines

/-!
# Proofs/Log/Run — what a whole run writes

What came before a step counts in two ways: by the settings that were chosen last, and by the
bindings that are still open.  Every step keeps the state in agreement with both
(`FollowsHistory.step`), whatever handlers and decisions earlier settings have left behind.  So
**what is written of an event is known from the settings and the bindings alone** (`run_event`).
-/

namespace TypeCatalog.Log

/-! ## What counts of the past -/

/-- The settings after a step. -/
def Settings.after (s : Settings) : Step → Settings
  | .configure s' => s'
  | _ => s

/-- The settings that were chosen last. -/
def Settings.afterAll (s : Settings) (steps : List Step) : Settings := steps.foldl Settings.after s

/-- The bindings that are open after a step, the innermost first. -/
def openAfter (names : List String) : Step → List String
  | .bind name => name :: names
  | .unbind => names.tail
  | _ => names

/-- The bindings that are open after steps. -/
def openAfterAll (names : List String) (steps : List Step) : List String :=
  steps.foldl openAfter names

theorem openAfterAll_append (names : List String) (steps rest : List Step) :
    openAfterAll names (steps ++ rest) = openAfterAll (openAfterAll names steps) rest :=
  List.foldl_append

/-- Steps in which every binding that is made ends, and no other. -/
inductive IsNested : List Step → Prop
  | nil : IsNested []
  | other {step : Step} {rest : List Step} : (∀ names, openAfter names step = names) →
      IsNested rest → IsNested (step :: rest)
  | block (name : String) {inside rest : List Step} : IsNested inside → IsNested rest →
      IsNested (.bind name :: inside ++ .unbind :: rest)

/-- **What is bound outside a block is bound again after it.** -/
theorem IsNested.openAfterAll_eq {steps : List Step} (h : IsNested steps) (names : List String) :
    openAfterAll names steps = names := by
  induction h generalizing names with
  | nil => rfl
  | other hstep _ ih =>
    rw [openAfterAll, List.foldl_cons, hstep]
    exact ih names
  | @block name inside rest _ _ hinside hrest =>
    rw [openAfterAll, List.cons_append, List.foldl_cons, List.foldl_append, List.foldl_cons]
    change openAfterAll (openAfterAll (name :: names) inside).tail rest = names
    rw [hinside, hrest]
    rfl

/-! ## The state in agreement with the past -/

/-- A state agrees with the settings that were chosen last and the bindings that are open. -/
structure FollowsHistory (state : State) (s : Settings) (names : List String) : Prop where
  handlers : state.handlers = [⟨s.json⟩]
  bound : state.definition :: state.outer = names.map some ++ [none]
  loggers : state.loggers.FollowsSettings s

variable {timestamp : String} {state : State} {s : Settings} {names : List String}

theorem FollowsHistory.definition_eq (h : FollowsHistory state s names) :
    state.definition = names.head? := by
  have hbound := congrArg List.head? h.bound
  cases names <;> simpa using hbound

/-- Settings leave nothing of what was there before, whatever it was, but the bindings. -/
theorem followsHistory_configure (s : Settings)
    (hlevels : ∀ l ∈ state.loggers.levels, l.1 = ownLogger)
    (hbound : state.definition :: state.outer = names.map some ++ [none]) :
    FollowsHistory (state.configure s) s names where
  handlers := rfl
  bound := hbound
  loggers := by
    have hkept : state.loggers.levels.filter (·.1 != ownLogger) = [] :=
      List.filter_eq_nil_iff.mpr fun l hl => by simp [hlevels l hl]
    exact Loggers.followsSettings_chosen state.loggers s hkept

theorem FollowsHistory.enter (h : FollowsHistory state s names) (name : String) :
    FollowsHistory (state.enter name) s (name :: names) where
  handlers := h.handlers
  bound := congrArg (some name :: ·) h.bound
  loggers := h.loggers

theorem FollowsHistory.leave (h : FollowsHistory state s names) :
    FollowsHistory state.leave s names.tail := by
  have hbound := h.bound
  cases names with
  | nil =>
    obtain ⟨-, houter⟩ := List.cons.inj hbound
    rw [State.leave, houter]
    exact h
  | cons name names =>
    obtain ⟨-, houter⟩ := List.cons.inj hbound
    rw [State.leave, houter]
    cases names with
    | nil => exact ⟨h.handlers, rfl, h.loggers⟩
    | cons name' names => exact ⟨h.handlers, rfl, h.loggers⟩

/-! ## One event -/

/-- The event of a step, if it has one. -/
def Step.event? : Step → Option Event
  | .event e => some e
  | .foreign logger level text => some { logger, level, text }
  | _ => none

/-- What is written of an event: its line if its logger takes it and it can be written, or else
nothing. -/
theorem FollowsHistory.log_output (h : FollowsHistory state s names) (timestamp : String)
    (e : Event) : ∃ taken, Decides s e.logger e.level taken ∧ (state.log timestamp e).2 =
      if taken && Record.isWritable s.json ⟨e, names.head?⟩ then
        s.line .plain timestamp ⟨e, names.head?⟩ ++ "\n" else "" := by
  refine ⟨_, (h.loggers.use e.logger).decides_takes e.logger e.level, ?_⟩
  rw [State.log]
  dsimp only
  rw [h.handlers, h.definition_eq, List.map_singleton, Handler.output]
  cases (state.loggers.use e.logger).takes e.logger e.level with
  | false => rfl
  | true => cases Record.isWritable s.json ⟨e, names.head?⟩ <;> rfl

theorem FollowsHistory.log (h : FollowsHistory state s names) (e : Event) :
    FollowsHistory (state.log timestamp e).1 s names where
  handlers := h.handlers
  bound := h.bound
  loggers := (h.loggers.use e.logger).settle e.logger e.level

/-- **Every step keeps the state in agreement with the past.** -/
theorem FollowsHistory.step (h : FollowsHistory state s names) (step : Step) :
    FollowsHistory (state.step timestamp step).1 (s.after step) (openAfter names step) := by
  cases step with
  | configure s' =>
    refine followsHistory_configure s' ?_ h.bound
    rw [h.loggers.levels]
    exact List.forall_mem_singleton.mpr rfl
  | bind name => exact h.enter name
  | unbind => exact h.leave
  | event e => exact h.log e
  | foreign logger level text => exact h.log _

/-! ## Runs -/

/-- The state after steps. -/
def State.afterAll (timestamp : String) (state : State) (steps : List Step) : State :=
  steps.foldl (fun state step => (state.step timestamp step).1) state

theorem FollowsHistory.afterAll (h : FollowsHistory state s names) (timestamp : String)
    (steps : List Step) :
    FollowsHistory (state.afterAll timestamp steps) (s.afterAll steps)
      (openAfterAll names steps) := by
  induction steps generalizing state s names with
  | nil => exact h
  | cons step rest ih => exact ih (h.step step)

theorem getElem?_run (timestamp : String) (state : State) (before : List Step) (step : Step)
    (after : List Step) : (State.run timestamp state (before ++ step :: after))[before.length]? =
      some ((state.afterAll timestamp before).step timestamp step).2 := by
  induction before generalizing state with
  | nil => rfl
  | cons first before ih => exact ih (state.step timestamp first).1

theorem run_append (timestamp : String) (state : State) (steps rest : List Step) :
    State.run timestamp state (steps ++ rest) =
      State.run timestamp state steps ++
        State.run timestamp (state.afterAll timestamp steps) rest := by
  induction steps generalizing state with
  | nil => rfl
  | cons step steps ih => exact congrArg (_ :: ·) (ih _)

/-! ## Records -/

theorem FollowsHistory.log_eq_output (h : FollowsHistory state s names) {e : Event}
    (hdots : isDoublyDotted e.logger = false) :
    (state.log timestamp e).2 = s.output .plain timestamp ⟨e, names.head?⟩ := by
  obtain ⟨taken, hdecides, houtput⟩ := h.log_output timestamp e
  rw [houtput, hdecides.exact hdots]
  rfl

/-- What happens to the log when a record is made. -/
def Record.steps (r : Record) : List Step :=
  match r.definition with
  | none => [.event r.event]
  | some d => [.bind d, .event r.event, .unbind]

/-- A record is written as the settings say, and leaves settings and bindings as they were. -/
theorem FollowsHistory.run_steps (h : FollowsHistory state s names) {r : Record}
    (hdots : isDoublyDotted r.event.logger = false)
    (hbound : r.definition = none → names = []) :
    String.join (State.run timestamp state r.steps) = s.output .plain timestamp r ∧
      FollowsHistory (state.afterAll timestamp r.steps) s names := by
  obtain ⟨e, definition⟩ := r
  cases definition with
  | none =>
    obtain rfl := hbound rfl
    refine ⟨?_, h.log e⟩
    have hline : (state.log timestamp e).2 = s.output .plain timestamp ⟨e, none⟩ :=
      h.log_eq_output hdots
    rw [← hline]
    simp [State.run, Record.steps, State.step, String.join_cons]
  | some d =>
    have hinside := h.enter d
    refine ⟨?_, (hinside.log e).leave⟩
    have hline : ((state.enter d).log timestamp e).2 = s.output .plain timestamp ⟨e, some d⟩ :=
      hinside.log_eq_output hdots
    rw [← hline]
    change String.join ["", ((state.enter d).log timestamp e).2, ""] = _
    simp [String.join_cons]

/-- **A configured log writes the outputs of its records**, whatever their definitions. -/
theorem join_run_steps (h : FollowsHistory state s []) (timestamp : String) (rs : List Record)
    (hdots : ∀ r ∈ rs, isDoublyDotted r.event.logger = false) :
    String.join (State.run timestamp state (rs.flatMap Record.steps)) =
      s.outputs .plain timestamp rs := by
  induction rs generalizing state with
  | nil => rfl
  | cons r rs ih =>
    obtain ⟨hr, hrs⟩ := List.forall_mem_cons.mp hdots
    obtain ⟨houtput, hafter⟩ := h.run_steps hr (fun _ => rfl)
    rw [List.flatMap_cons, run_append, String.join_append, houtput, ih hafter hrs,
      Settings.outputs, Settings.outputs, List.map_cons, String.join_cons]

/-! ## Events -/

/-- Only events are written. -/
theorem run_quiet (timestamp : String) (state : State) (steps : List Step) (i : ℕ)
    (hquiet : steps[i]?.bind Step.event? = none) :
    ((State.run timestamp state steps)[i]?).getD "" = "" := by
  induction steps generalizing state i with
  | nil => rfl
  | cons step rest ih =>
    cases i with
    | zero =>
      cases step with
      | configure | bind | unbind => rfl
      | event | foreign => cases hquiet
    | succ i => exact ih _ i hquiet

/-- **What a run writes of an event**, whatever happened since the settings were first chosen. -/
theorem run_event (timestamp : String) (first : Settings) (before after : List Step) (step : Step)
    {e : Event} (hstep : step.event? = some e) (hnames : (e.fields.map Prod.fst).Nodup)
    (hproper : ∀ f ∈ e.fields, Json.IsProper f.2) :
    let steps := .configure first :: before ++ step :: after
    let s := first.afterAll before
    let r : Record := ⟨e, (openAfterAll [] before).head?⟩
    (∃ text, (State.run timestamp {} steps)[before.length + 1]? = some text ∧
      (text = "" ∨ text = s.line .plain timestamp r ++ "\n") ∧
      (text ≠ "" → r.isWritable s.json) ∧
      (r.isWritable s.json →
        (isDoublyDotted e.logger = false →
          (text ≠ "" ↔ (s.threshold e.logger).rank ≤ e.level.rank)) ∧
        (Level.warning.rank ≤ e.level.rank → text ≠ "") ∧
        (s.verbose = false → e.level.rank < Level.warning.rank → text = "")) ∧
      (text ≠ "" → s.json = true → (∀ c ∈ (s.line .plain timestamp r).toList, Json.IsPlain c) ∧
        ∃ object, Json.read text = .ok (.object object) ∧ Tells object timestamp r)) ∧
    ((∀ f ∈ e.fields, Value.Fits f.2) → (s.json = false → ∀ name ∈ ["stack", "exception"],
        ∀ v ∈ e.fields.lookup name, v = .null ∨ ∃ t, v = .string t) →
      r.isWritable s.json) ∧
    (∀ i : ℕ, steps[i]?.bind Step.event? = none → ((State.run timestamp {} steps)[i]?).getD "" = "") ∧
    ∀ outside name inside, IsNested inside → before = outside ++ .bind name :: inside ++ [.unbind] →
      r.definition = (openAfterAll [] outside).head? := by
  intro steps s r
  have hstart : FollowsHistory (({} : State).configure first) first [] :=
    followsHistory_configure first nofun rfl
  have hfollows := hstart.afterAll timestamp before
  have htext : (State.run timestamp {} steps)[before.length + 1]? = some
      (((({} : State).configure first).afterAll timestamp before).step timestamp step).2 :=
    getElem?_run timestamp (({} : State).configure first) before step after
  have hlog : ∀ state : State, (state.step timestamp step).2 = (state.log timestamp e).2 := by
    intro state
    cases step with
    | configure | bind | unbind => cases hstep
    | event | foreign => cases hstep; rfl
  obtain ⟨taken, hdecides, houtput⟩ := hfollows.log_output timestamp e
  have hwritten :
      (if taken && r.isWritable s.json then s.line .plain timestamp r ++ "\n" else "") ≠ "" ↔
      taken = true ∧ r.isWritable s.json = true := by
    rw [← Bool.and_eq_true]
    cases taken && r.isWritable s.json with
    | false => simp
    | true => simp
  refine ⟨⟨_, htext, ?_⟩, isWritable_of_texts (r := r), fun i =>
    run_quiet timestamp {} steps i, ?_⟩
  · rw [hlog, houtput]
    refine ⟨?_, fun hne => (hwritten.mp hne).2, fun hwritable => ⟨fun hdots => ?_, fun habove => ?_,
      fun hverbose hbelow => ?_⟩, fun hne hjson => ?_⟩
    · cases taken && r.isWritable s.json with
      | false => exact .inl rfl
      | true => exact .inr rfl
    · rw [hwritten, and_iff_left hwritable, hdecides.exact hdots, decide_eq_true_iff]
    · exact hwritten.mpr ⟨hdecides.above habove, hwritable⟩
    · rw [hdecides.below hverbose hbelow]
      rfl
    · obtain ⟨rfl, hwritable⟩ := hwritten.mp hne
      have hline : s.line .plain timestamp r = jsonLine timestamp r := by
        rw [Settings.line, hjson]
        rfl
      rw [hwritable, Bool.and_self, if_pos rfl, hline]
      rw [hjson, isWritable_json] at hwritable
      exact ⟨isPlain_jsonLine, read_jsonLine timestamp hnames hproper hwritable⟩
  · rintro outside name inside hinside rfl
    have hblock := (IsNested.block name hinside .nil).openAfterAll_eq
      (openAfterAll [] outside)
    rw [← openAfterAll_append, ← List.append_assoc] at hblock
    exact congrArg List.head? hblock

theorem run_event_after_block : ∃ text,
    (State.run "now" {} [.configure ⟨false, false⟩, .configure ⟨true, true⟩, .bind "Outer",
      .bind "Inner", .unbind, .event ⟨"tsgen.generator", .info, "done", [("count", .int 3)]⟩])[5]? =
      some text ∧ ∃ object, Json.read text = .ok (.object object) ∧
      Value.lookup "definition" object = some (.string "Outer") ∧
      Value.lookup "count" object = some (.int 3) := by
  obtain ⟨⟨text, htext, -, -, hwrites, hjson⟩, hwritable, -, -⟩ := run_event "now" ⟨false, false⟩
    [.configure ⟨true, true⟩, .bind "Outer", .bind "Inner", .unbind] []
    (.event ⟨"tsgen.generator", .info, "done", [("count", .int 3)]⟩)
    rfl (by decide) (List.forall_mem_singleton.mpr trivial)
  obtain ⟨hexact, -, -⟩ := hwrites (hwritable (List.forall_mem_singleton.mpr rfl) nofun)
  have hwritten : text ≠ "" := (hexact (by decide)).mpr (by decide)
  obtain ⟨-, object, hread, htells⟩ := hjson hwritten rfl
  exact ⟨text, htext, object, hread, htells.definition rfl,
    htells.field "count" (by decide) (by decide)⟩

/-- An event with an integer that is too long is not written, whatever its level. -/
theorem run_unwritable {v : Value} (h : ¬ Value.Fits v) : State.run "now" {}
    [.configure ⟨true, true⟩, .event ⟨"tsgen", .critical, "e", [("n", v)]⟩] = ["", ""] := by
  have hwritable :
      Record.isWritable true ⟨⟨"tsgen", .critical, "e", [("n", v)]⟩, none⟩ = false := by
    change (v.printed?.isSome && true) = false
    rw [Value.printed?_eq_none.mpr h]
    rfl
  change ["", String.join [if Record.isWritable true
    ⟨⟨"tsgen", .critical, "e", [("n", v)]⟩, none⟩ then _ else _]] = ["", ""]
  rw [hwritable]
  rfl

/-- Two dots in a row hide the program's logger; a handler keeps fields of its own names to itself;
an integer that is too long is not written, nor is a stack that is no text on a line made for
reading. -/
theorem run_beyond_the_settings :
    (State.run "now" {} [.configure ⟨true, true⟩, .foreign "tsgen..x" .debug "e"] = ["", ""] ∧
      isOwn "tsgen..x") ∧
    (∃ text object, State.run "now" {} [.configure ⟨true, true⟩,
        .event ⟨"tsgen", .warning, "e", [("_from_structlog", .int 1)]⟩] = ["", text] ∧
      Json.read text = .ok (.object object) ∧ Value.lookup "_from_structlog" object = none) ∧
    State.run "now" {} [.configure ⟨true, true⟩,
      .event ⟨"tsgen", .critical, "e", [("n", .int (10 ^ Number.digitLimit))]⟩] = ["", ""] ∧
    State.run "now" {} [.configure ⟨true, false⟩,
      .event ⟨"tsgen", .critical, "e", [("stack", .int 5)]⟩] = ["", ""] := by
  refine ⟨⟨by decide, by decide⟩, ?_, run_unwritable ?_, rfl⟩
  · obtain ⟨object, hread, htells⟩ := read_jsonLine "now"
      (r := ⟨⟨"tsgen", .warning, "e", [("_from_structlog", .int 1)]⟩, none⟩) (by decide)
      (List.forall_mem_singleton.mpr trivial) nofun
    exact ⟨_, object, rfl, hread, htells.hidden _ (by decide)⟩
  · have hpos : 0 < Number.digitLimit := by decide
    have hten (k : ℕ) : (10 ^ k : Int).natAbs = 10 ^ k := Int.natAbs_pow 10 k
    rw [Value.Fits, Value.fits, decide_eq_true_iff, Nat.length_toDigits_le_iff (by decide) hpos,
      hten]
    exact Nat.lt_irrefl _

end TypeCatalog.Log
