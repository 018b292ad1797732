import TypeCatalog.Command.Run
import TypeCatalog.Proofs.Document.Message
import TypeCatalog.Proofs.FileSystem.Effects
import TypeCatalog.Proofs.Generation.Totality

/-!
# Proofs/Command/Outcome — a run writes its output, or says why not, or changes no file

A run ends with status zero if the catalog was loaded and its declarations were stored (`Writes`).
It ends with status one if nothing stands where the catalog should, or what stands there is refused
(`Refuses`); it then has said so on one line, and has touched nothing.  All else is passed on as a
failure, and no file has changed, but in one case: half a pair of units in a name has no encoding,
and that shows only when the output has been opened.  Then the output is left empty (`Empties`,
`run_verdict`).
-/

namespace TypeCatalog.Command

open FileSystem Layout Log Text

variable {fs after : FileSystem} {o : Options} {environment : String → Option String}

/-! ## How a run may end -/

/-- The regular files are the same, but for what stands at a place, if one is given. -/
def SameFilesBut (target : Option (List String)) (fs after : FileSystem) : Prop :=
  ∀ place, some place ≠ target → ∀ contents,
    after.get? place = some (.file contents) ↔ fs.get? place = some (.file contents)

/-- The profile that a run is asked for: unions stand for enumerations if the option is given, or
the variable is set and not empty. -/
def Options.wanted (o : Options) (environment : String → Option String) : Profile where
  enumAsUnion := o.enumAsUnion || (environment "ENUM_AS_UNION").any (· != "")
  namespaceName := o.namespaceName

/-- A catalog is loaded, and code is generated from it for this output; these bytes encode the code,
if any do. -/
def Generates (environment : String → Option String) (o : Options) (fs : FileSystem)
    (output : Path) (contents? : Option ByteArray) : Prop :=
  ∃ bytes c out, fs.read o.catalog = .ok bytes ∧ Catalog.ofFile o.catalog bytes = .ok c ∧
    (generate (spelledProfile (.ofFile bytes) (o.wanted environment)) c).runFresh.1 = .ok out ∧
    o.output = some output ∧ (Marking.ofFile bytes).encode? out.code = contents?

/-- Contents have been stored where the output leads to, and no other file has changed. -/
def Leaves (fs : FileSystem) (output : Path) (contents : ByteArray) (after : FileSystem) : Prop :=
  ∃ target, fs.store output contents = (.ok (), after) ∧ after.read output = .ok contents ∧
    after.locate output = .ok target ∧ SameFilesBut (some target) fs after

/-- The code is all that has been stored. -/
def Writes (environment : String → Option String) (o : Options) (fs after : FileSystem) : Prop :=
  ∃ output contents, Generates environment o fs output (some contents) ∧
    Leaves fs output contents after

/-- The code has no encoding, and the output has been opened and left empty. -/
def Empties (environment : String → Option String) (o : Options) (fs after : FileSystem) : Prop :=
  ∃ output, Generates environment o fs output none ∧ Leaves fs output .empty after

/-- A run has no catalog to load, and this is what there is to say about it. -/
inductive Refuses (fs : FileSystem) (o : Options) : String → Prop
  /-- Nothing stands where the path leads, or somewhere on the way. -/
  | missing : fs.look o.catalog = .error .missing → Refuses fs o (missingMessage o.catalog)
  | defect {bytes : ByteArray} {d : Defect} : fs.read o.catalog = .ok bytes →
      Catalog.ofFile o.catalog bytes = .error (.defect d) → Refuses fs o d.message

/-- A run has one of four ends. -/
inductive Ends (environment : String → Option String) (o : Options) (fs : FileSystem) :
    Outcome × FileSystem → Prop
  | written {log : String} {after : FileSystem} : Writes environment o fs after →
      Ends environment o fs ({ exit := .ok 0, stderr := log }, after)
  | refused {message : String} : Refuses fs o message →
      Ends environment o fs (refused "" message, fs)
  | emptied {log : String} {after : FileSystem} : Empties environment o fs after →
      Ends environment o fs ({ exit := .error .encoding, stderr := log }, after)
  | failed {failure : Failure} {log : String} {after : FileSystem} : failure ≠ .encoding →
      (∀ message, ¬ Refuses fs o message) →
      (∀ output contents?, Generates environment o fs output contents? →
        (fs.store output (contents?.getD .empty)).1 ≠ .ok ()) →
      SameFilesBut none fs after →
      Ends environment o fs ({ exit := .error failure, stderr := log }, after)

theorem profile_eq_wanted (o : Options) (environment : String → Option String) :
    o.profile environment = o.wanted environment := by
  rw [Options.profile, Options.wanted]
  cases o.enumAsUnion <;> rfl

/-! ## What stands where the catalog should -/

theorem look_of_read {p : Path} {bytes : ByteArray} (h : fs.read p = .ok bytes) :
    fs.look p = .ok (.file bytes) := by
  rw [FileSystem.read] at h
  cases hlook : fs.look p with
  | error fault =>
    rw [hlook] at h
    cases h
  | ok entry =>
    rw [hlook] at h
    cases entry with
    | file contents => rw [Except.ok.inj h]
    | directory => cases h

/-- A file is missing exactly if nothing stands where its path leads. -/
theorem missing_of_read {p : Path} {e : FileError} (h : fs.read p = .error e) :
    e.path = p ∧ (e.fault = .missing ↔ fs.look p = .error .missing) := by
  rw [FileSystem.read] at h
  cases hlook : fs.look p with
  | error fault =>
    rw [hlook] at h
    obtain rfl := Except.error.inj h
    exact ⟨rfl, by rw [Except.error.injEq]⟩
  | ok entry =>
    rw [hlook] at h
    cases entry with
    | file contents => cases h
    | directory =>
      obtain rfl := Except.error.inj h
      refine ⟨rfl, fun he => ?_, fun he => ?_⟩
      · cases he
      · cases he

/-- What is refused of a catalog that is there is a defect of it. -/
theorem Refuses.defect_of_read {bytes : ByteArray} {message : String}
    (h : Refuses fs o message) (hread : fs.read o.catalog = .ok bytes) :
    ∃ d, Catalog.ofFile o.catalog bytes = .error (.defect d) ∧ message = d.message := by
  cases h with
  | missing hlook => nomatch hlook.symm.trans (look_of_read hread)
  | defect hbytes hdefect =>
    obtain rfl := Except.ok.inj (hbytes.symm.trans hread)
    exact ⟨_, hdefect, rfl⟩

theorem Refuses.unique {message message' : String} (h : Refuses fs o message)
    (h' : Refuses fs o message') : message = message' := by
  cases h with
  | missing hlook =>
    cases h' with
    | missing _ => rfl
    | defect hread _ => nomatch hlook.symm.trans (look_of_read hread)
  | defect hread hdefect =>
    obtain ⟨d, hd, rfl⟩ := h'.defect_of_read hread
    rw [LoadError.defect.inj (Except.error.inj (hdefect.symm.trans hd))]

theorem Refuses.oneLine {message : String} (h : Refuses fs o message) : OneLine message := by
  cases h with
  | missing _ => exact OneLine.append (by decide) (oneLine_quoted _)
  | defect _ hdefect => exact Document.oneLine_of_ofFile hdefect

theorem Generates.not_refuses {output : Path} {contents? : Option ByteArray}
    (h : Generates environment o fs output contents?) (message : String) :
    ¬ Refuses fs o message := by
  obtain ⟨bytes, c, -, hread, hload, -⟩ := h
  intro hrefuses
  obtain ⟨d, hd, -⟩ := hrefuses.defect_of_read hread
  nomatch hload.symm.trans hd

/-! ## Storing the declarations -/

theorem sameFiles_of_grows (h : Grows fs after) (target : Option (List String)) :
    SameFilesBut target fs after :=
  fun place _ => h.file_iff place

theorem sameFiles_of_stored {output : Path} {contents : ByteArray} {target : List String}
    (h : Stored fs output contents target after) : SameFilesBut (some target) fs after := by
  intro place hne contents
  obtain heq | ⟨hnone, hdirectory⟩ := h.others place fun heq => hne (congrArg some heq)
  · rw [heq]
  · rw [hnone, hdirectory]
    exact iff_of_false nofun nofun

/-- What is stored is left, and nothing else has changed. -/
theorem leaves_of_store {output : Path} {contents : ByteArray}
    (h : fs.store output contents = (.ok (), after)) : Leaves fs output contents after := by
  obtain ⟨target, hstored⟩ := stored_of_store h
  exact ⟨target, h, hstored.read, hstored.located, sameFiles_of_stored hstored⟩

section Declarations

variable {m : Marking} {p : Profile} {c : Catalog} {output : Path} {out : Output} {j j' : Journal}

theorem writeDeclarations_of_stored {contents : ByteArray}
    (hrun : (generate p c).run.run j = (.ok out, j')) (hcode : m.encode? out.code = some contents)
    (hstore : fs.store output contents = (.ok (), after)) :
    writeDeclarations m p c output j fs = ⟨.ok out,
      { j' with records := j'.records ++ [⟨wroteEvent m output out, j'.bound⟩] }, after⟩ := by
  rw [writeDeclarations, hrun]
  simp only [hcode, storeText, Option.getD_some, hstore, Option.isSome_some, if_true]

/-- Code without encoding leaves an empty output behind. -/
theorem writeDeclarations_of_unencoded (hrun : (generate p c).run.run j = (.ok out, j'))
    (hcode : m.encode? out.code = none) (hstore : fs.store output .empty = (.ok (), after)) :
    writeDeclarations m p c output j fs = ⟨.error .encoding, j', after⟩ := by
  rw [writeDeclarations, hrun]
  simp only [hcode, storeText, Option.getD_none, hstore, Option.isSome_none, Bool.false_eq_true,
    if_false]

theorem writeDeclarations_of_error {e : FileError}
    (hrun : (generate p c).run.run j = (.ok out, j'))
    (hstore : fs.store output ((m.encode? out.code).getD .empty) = (.error e, after)) :
    writeDeclarations m p c output j fs = ⟨.error (.file e), j', after⟩ := by
  rw [writeDeclarations, hrun]
  simp only [storeText, hstore]

end Declarations

/-- What is generated has one encoding, if it has any. -/
theorem Generates.unique {output output' : Path} {contents? contents?' : Option ByteArray}
    (h : Generates environment o fs output contents?)
    (h' : Generates environment o fs output' contents?') :
    output = output' ∧ contents? = contents?' := by
  obtain ⟨bytes, c, out, hread, hload, hgenerate, houtput, rfl⟩ := h
  obtain ⟨bytes', c', out', hread', hload', hgenerate', houtput', rfl⟩ := h'
  obtain rfl := Except.ok.inj (hread.symm.trans hread')
  obtain rfl := Except.ok.inj (hload.symm.trans hload')
  obtain rfl := Except.ok.inj (hgenerate.symm.trans hgenerate')
  exact ⟨Option.some.inj (houtput.symm.trans houtput'), rfl⟩

/-- **A loaded catalog is written, or a failure leaves all files as they are, or the output is
emptied.** -/
theorem writeOutcome_ends {bytes : ByteArray} {c : Catalog} (settings : Settings)
    (timestamp : String) (hread : fs.read o.catalog = .ok bytes)
    (hload : Catalog.ofFile o.catalog bytes = .ok c) :
    Ends environment o fs
      (writeOutcome (.ofFile bytes) settings timestamp
        (spelledProfile (.ofFile bytes) (o.profile environment)) c o.output fs) := by
  have hnot (message : String) : ¬ Refuses fs o message := fun hrefuses =>
    have ⟨d, hd, _⟩ := hrefuses.defect_of_read hread
    nomatch hload.symm.trans hd
  rw [profile_eq_wanted]
  obtain ⟨entries, -, hdocument⟩ := Catalog.ofFile_eq_ok.mp hload
  obtain ⟨-, out, j, -, hrun, -⟩ := generate_ofDocument hdocument
    (spelledProfile (.ofFile bytes) (o.wanted environment)) {}
  have hfresh : (generate (spelledProfile (.ofFile bytes) (o.wanted environment)) c).runFresh =
      (.ok out, j.records) := by
    rw [Logged.runFresh, hrun]
  cases houtput : o.output with
  | none =>
    rw [writeOutcome, hfresh]
    refine .failed nofun hnot ?_ (sameFiles_of_grows (.refl fs) none)
    rintro _ _ ⟨-, -, -, -, -, -, hsome, -⟩
    nomatch houtput.symm.trans hsome
  | some output =>
    have hgenerates : Generates environment o fs output ((Marking.ofFile bytes).encode? out.code) :=
      ⟨bytes, c, out, hread, hload, congrArg Prod.fst hfresh, houtput, rfl⟩
    rw [writeOutcome]
    cases hstore : fs.store output (((Marking.ofFile bytes).encode? out.code).getD .empty) with
    | mk result after =>
      cases result with
      | ok done =>
        cases hcode : (Marking.ofFile bytes).encode? out.code with
        | some contents =>
          rw [hcode] at hgenerates hstore
          rw [writeDeclarations_of_stored hrun hcode hstore]
          exact .written ⟨output, contents, hgenerates, leaves_of_store hstore⟩
        | none =>
          rw [hcode] at hgenerates hstore
          rw [writeDeclarations_of_unencoded hrun hcode hstore]
          exact .emptied ⟨output, hgenerates, leaves_of_store hstore⟩
      | error e =>
        obtain ⟨hgrows, hfault⟩ := store_error hstore
        rw [writeDeclarations_of_error hrun hstore]
        simp only [fileOutcome, if_neg hfault]
        refine .failed nofun hnot (fun output' contents? hother => ?_)
          (sameFiles_of_grows hgrows none)
        -- What is generated is the one code that could not be stored.
        obtain ⟨rfl, rfl⟩ := hgenerates.unique hother
        rw [hstore]
        nofun

/-! ## Runs -/

/-- What cannot be loaded is not generated. -/
theorem ends_failed_of_unread {failure : Failure} (hfailure : failure ≠ .encoding)
    (hnot : ∀ message, ¬ Refuses fs o message)
    (hload : ∀ bytes c, fs.read o.catalog = .ok bytes → Catalog.ofFile o.catalog bytes ≠ .ok c) :
    Ends environment o fs ({ exit := .error failure }, fs) := by
  refine .failed hfailure hnot ?_ (sameFiles_of_grows (.refl fs) none)
  rintro _ _ ⟨bytes, c, -, hread, hc, -⟩
  exact absurd hc (hload bytes c hread)

theorem runOptions_ends (timestamp : String) (environment : String → Option String) (o : Options)
    (fs : FileSystem) : Ends environment o fs (runOptions timestamp environment o fs) := by
  rw [runOptions]
  cases hread : fs.read o.catalog with
  | error e =>
    obtain ⟨hpath, hmissing⟩ := missing_of_read hread
    by_cases hfault : e.fault = .missing
    · simp only [fileOutcome, if_pos hfault, hpath]
      exact .refused (.missing (hmissing.mp hfault))
    · simp only [fileOutcome, if_neg hfault]
      refine ends_failed_of_unread nofun (fun message hrefuses => ?_) fun bytes _ hbytes => ?_
      · cases hrefuses with
        | missing hlook => exact hfault (hmissing.mpr hlook)
        | defect hbytes _ => nomatch hread.symm.trans hbytes
      · nomatch hread.symm.trans hbytes
  | ok bytes =>
    cases hload : Catalog.ofFile o.catalog bytes with
    | error e =>
      simp only [hload]
      cases e with
      | defect d => exact .refused (.defect hread hload)
      | source e =>
        refine ends_failed_of_unread nofun (fun message hrefuses => ?_) fun bytes' c hbytes hc => ?_
        · obtain ⟨d, hd, -⟩ := hrefuses.defect_of_read hread
          nomatch hload.symm.trans hd
        · obtain rfl := Except.ok.inj (hread.symm.trans hbytes)
          nomatch hload.symm.trans hc
    | ok c =>
      simp only [hload]
      exact writeOutcome_ends o.settings timestamp hread hload

/-- **A run writes its output and nothing else, or says on one line why there is no catalog and
touches nothing, or fails and changes no file, unless the code has no encoding: then the output is
left empty, and no other file changes.** -/
theorem run_verdict {arguments : List String} (h : Request.ofArguments arguments = .run o)
    (timestamp : String) (environment : String → Option String) (fs : FileSystem) :
    let (outcome, after) := run timestamp environment arguments fs
    (outcome.exit = .ok 0 ↔ ∃ output contents, Generates environment o fs output (some contents) ∧
        (fs.store output contents).1 = .ok ()) ∧
      (outcome.exit = .ok 0 → Writes environment o fs after) ∧
      (outcome.exit = .ok 1 ↔ ∃ message, Refuses fs o message) ∧
      (∀ message, Refuses fs o message → outcome.stdout = "" ∧
        outcome.stderr = "error: " ++ message ++ "\n" ∧ OneLine message ∧ after = fs) ∧
      (outcome.exit = .error .encoding ↔ ∃ output, Generates environment o fs output none ∧
        (fs.store output .empty).1 = .ok ()) ∧
      (outcome.exit = .error .encoding → Empties environment o fs after) ∧
      (outcome.exit ≠ .ok 0 → outcome.exit ≠ .ok 1 → outcome.exit ≠ .error .encoding →
        (∃ failure, outcome.exit = .error failure) ∧ SameFilesBut none fs after) := by
  have hrun : run timestamp environment arguments fs = runOptions timestamp environment o fs := by
    rw [run, h]
  have hends := runOptions_ends timestamp environment o fs
  rw [hrun]
  generalize runOptions timestamp environment o fs = result at hends ⊢
  cases hends with
  | written hwrites =>
    obtain ⟨output, contents, hgenerates, hleaves⟩ := id hwrites
    have hstore := hleaves.choose_spec.1
    have hnot := hgenerates.not_refuses
    refine ⟨⟨fun _ => ⟨output, contents, hgenerates, congrArg Prod.fst hstore⟩, fun _ => rfl⟩,
      fun _ => hwrites, ⟨nofun, fun ⟨message, hm⟩ => absurd hm (hnot message)⟩,
      fun message hm => absurd hm (hnot message), ⟨nofun, fun ⟨output', hnone, _⟩ => ?_⟩, nofun,
      fun hzero => absurd rfl hzero⟩
    nomatch (hgenerates.unique hnone).2
  | @refused message hrefuses =>
    refine ⟨⟨nofun, fun ⟨output, contents, hgenerates, _⟩ => ?_⟩, nofun,
      ⟨fun _ => ⟨message, hrefuses⟩, fun _ => rfl⟩, fun other hother => ?_,
      ⟨nofun, fun ⟨output, hgenerates, _⟩ => ?_⟩, nofun, fun _ hone => absurd rfl hone⟩
    · exact absurd hrefuses (hgenerates.not_refuses message)
    · obtain rfl := hrefuses.unique hother
      exact ⟨rfl, rfl, hrefuses.oneLine, rfl⟩
    · exact absurd hrefuses (hgenerates.not_refuses message)
  | emptied hempties =>
    obtain ⟨output, hgenerates, hleaves⟩ := id hempties
    have hstore := hleaves.choose_spec.1
    have hnot := hgenerates.not_refuses
    refine ⟨⟨nofun, fun ⟨output', contents, hsome, _⟩ => ?_⟩, nofun,
      ⟨nofun, fun ⟨message, hm⟩ => absurd hm (hnot message)⟩,
      fun message hm => absurd hm (hnot message),
      ⟨fun _ => ⟨output, hgenerates, congrArg Prod.fst hstore⟩, fun _ => rfl⟩, fun _ => hempties,
      fun _ _ hencoding => absurd rfl hencoding⟩
    nomatch (hgenerates.unique hsome).2
  | failed hfailure hnot hunstored hsame =>
    refine ⟨⟨nofun, fun ⟨output, contents, hgenerates, hstore⟩ => ?_⟩, nofun,
      ⟨nofun, fun ⟨message, hm⟩ => absurd hm (hnot message)⟩,
      fun message hm => absurd hm (hnot message),
      ⟨fun h => absurd (Except.error.inj h) hfailure, fun ⟨output, hgenerates, hstore⟩ => ?_⟩,
      fun h => absurd (Except.error.inj h) hfailure, fun _ _ _ => ⟨⟨_, rfl⟩, hsame⟩⟩
    · exact absurd hstore (hunstored output (some contents) hgenerates)
    · exact absurd hstore (hunstored output none hgenerates)

/-- A directory with nothing in it. -/
def emptyDirectory : FileSystem := ⟨[([], .directory)], []⟩

/-- A run in it, with all that could be logged wanted, says only that the catalog is missing. -/
theorem missing_catalog_run :
    let (outcome, after) := run "" (fun _ => some "1")
      ["-v", "--log-json", "types/api.json", "-o", "out/api.ts"] emptyDirectory
    outcome.exit = .ok 1 ∧ outcome.stdout = "" ∧ after = emptyDirectory ∧
      outcome.stderr = "error: [Errno 2] No such file or directory: 'types/api.json'\n" := by
  have hrequest : Request.ofArguments ["-v", "--log-json", "types/api.json", "-o", "out/api.ts"] =
      .run ⟨.ofText "types/api.json", some (.ofText "out/api.ts"), "T", false, true, true⟩ := by rfl
  obtain ⟨-, -, hexit, hsays, -⟩ := run_verdict hrequest "" (fun _ => some "1") emptyDirectory
  have hlook : emptyDirectory.look (.ofText "types/api.json") = .error .missing := by rfl
  obtain ⟨hstdout, hstderr, -, hafter⟩ := hsays _ (.missing hlook)
  have hmessage : missingMessage (.ofText "types/api.json") =
      "[Errno 2] No such file or directory: 'types/api.json'" := by decide +kernel
  refine ⟨hexit.mpr ⟨_, .missing hlook⟩, hstdout, hafter, hstderr.trans ?_⟩
  rw [hmessage]
  decide

/-- A directory with a regular file in it. -/
def oneFile : FileSystem := ⟨[([], .directory), (["f"], .file .empty)], []⟩

/-- A directory with an output that is there already, and a catalog file with half a pair of units
for a name. -/
def halfNamed : FileSystem where
  entries := [([], .directory), (["api.ts"], .file "old".toUTF8), (["api.json"], .file
    "\x7b\"types\":[\x7b\"kind\":\"string_alias\",\"name\":\"\\ud800\"\x7d]\x7d".toUTF8)]
  workingDirectory := []

/-- A path through a regular file leads to nothing that exists, and yet the run does not end with
status one: that the way is blocked is passed on.  And a name without encoding, which is passed on
too, has its output emptied. -/
theorem blocked_and_half_named_runs :
    ¬ ((run "" (fun _ => none) ["f/api.json", "-o", "api.ts"] oneFile).1.exit = .ok 1 ↔
      (∀ e, oneFile.look (.ofText "f/api.json") ≠ .ok e) ∨
        ∃ bytes d, oneFile.read (.ofText "f/api.json") = .ok bytes ∧
          Catalog.ofFile (.ofText "f/api.json") bytes = .error (.defect d)) ∧
    let result := run "" (fun _ => none) ["api.json", "-o", "api.ts"] halfNamed
    ¬ (result.1.exit ≠ .ok 0 → result.1.exit ≠ .ok 1 → SameFilesBut none halfNamed result.2) := by
  constructor
  · have hlook : oneFile.look (.ofText "f/api.json") = .error .notDirectory := by rfl
    have hexit : (run "" (fun _ => none) ["f/api.json", "-o", "api.ts"] oneFile).1.exit =
        .error (.file ⟨.notDirectory, .ofText "f/api.json"⟩) := by rfl
    intro h
    have hone := h.mpr (.inl fun e he => nomatch hlook.symm.trans he)
    nomatch hexit.symm.trans hone
  · intro result h
    have hresult : result.1.exit = .error .encoding ∧
        result.2.get? ["api.ts"] = some (.file .empty) := by decide +kernel
    obtain ⟨hexit, hafter⟩ := hresult
    have hsame := h (by rw [hexit]; nofun) (by rw [hexit]; nofun) ["api.ts"] nofun .empty
    exact absurd (hsame.mp hafter) (by decide +kernel)

end TypeCatalog.Command
