import TypeCatalog.Proofs.Command.CatalogFile
import TypeCatalog.Proofs.Command.Outcome
import TypeCatalog.Proofs.FileSystem.Way

/-!
# Proofs/Command/Rerun — a run done twice is a run done once

What a run logs and writes hangs on its command line, its environment and the bytes of its catalog
file (`exists_records`).  A run that succeeds leaves these bytes alone unless its output is that
very file, and finds its output stored already when it is run again.  So it then succeeds once more,
says the same but for the time, and changes nothing (`run_again`).
-/

namespace TypeCatalog.Command

open FileSystem Log Text

variable {fs after : FileSystem} {o : Options} {environment : String → Option String}
  {output : Path}

/-- What a run logs that generates its declarations and stores them, does not hang on the files but
the catalog's, nor on the time. -/
theorem exists_records {bytes contents : ByteArray} {c : Catalog} {out : Output}
    (hload : Catalog.ofFile o.catalog bytes = .ok c)
    (hgenerate : (generate (spelledProfile (.ofFile bytes) (o.wanted environment)) c).runFresh.1 =
      .ok out)
    (houtput : o.output = some output)
    (hcode : (Marking.ofFile bytes).encode? out.code = some contents) :
    ∃ records, ∀ timestamp fs after, fs.read o.catalog = .ok bytes →
      fs.store output contents = (.ok (), after) → runOptions timestamp environment o fs =
        ({ exit := .ok 0, stderr := o.settings.outputs (.ofFile bytes) timestamp records },
          after) := by
  obtain ⟨j, hrun⟩ : ∃ j, (generate (spelledProfile (.ofFile bytes) (o.wanted environment))
      c).run.run {} = (.ok out, j) :=
    ⟨_, Prod.ext hgenerate rfl⟩
  refine ⟨j.records ++ [⟨wroteEvent (.ofFile bytes) output out, j.bound⟩],
    fun timestamp fs after hread hstore => ?_⟩
  rw [runOptions, hread]
  simp only [hload, houtput, writeOutcome, profile_eq_wanted,
    writeDeclarations_of_stored hrun hcode hstore]

/-- At any time a run that succeeds comes to the same, and so does one after it. -/
theorem exists_runOptions_eq {timestamp : String}
    (hexit : (runOptions timestamp environment o fs).1.exit = .ok 0)
    (hdistinct : ∀ output, o.output = some output →
      fs.destination o.catalog ≠ fs.destination output) :
    ∃ m records after, ∀ timestamp,
      runOptions timestamp environment o fs =
        ({ exit := .ok 0, stderr := o.settings.outputs m timestamp records }, after) ∧
      runOptions timestamp environment o after =
        ({ exit := .ok 0, stderr := o.settings.outputs m timestamp records }, after) := by
  have hends := runOptions_ends timestamp environment o fs
  generalize runOptions timestamp environment o fs = result at hends hexit
  cases hends with
  | refused _ => nomatch hexit
  | emptied _ => nomatch hexit
  | failed _ _ _ _ => nomatch hexit
  | @written log after hwrites =>
    obtain ⟨output, contents, ⟨bytes, c, out, hread, hload, hgenerate, houtput, hcode⟩, _, hstore,
      -⟩ := hwrites
    obtain ⟨records, hruns⟩ := exists_records hload hgenerate houtput hcode
    have hread' : after.read o.catalog = .ok bytes :=
      read_of_store hstore hread (hdistinct output houtput)
    exact ⟨.ofFile bytes, records, after, fun timestamp => ⟨hruns timestamp fs after hread hstore,
      hruns timestamp after after hread' (store_again hstore)⟩⟩

/-- **A run that succeeds can be run again**: unless its output is its own catalog file, it succeeds
again, says the same but for the time, and leaves all files and directories as they are. -/
theorem run_again {timestamp timestamp' : String} {arguments : List String}
    {first second : Outcome} {after' : FileSystem}
    (hfirst : run timestamp environment arguments fs = (first, after))
    (hsecond : run timestamp' environment arguments after = (second, after'))
    (hexit : first.exit = .ok 0)
    (hdistinct : ∀ o output, Request.ofArguments arguments = .run o → o.output = some output →
      fs.destination o.catalog ≠ fs.destination output) :
    second.exit = .ok 0 ∧ second.stdout = first.stdout ∧ after' = after ∧
      ∃ (settings : Settings) (m : Marking) (records : List Record),
        first.stderr = settings.outputs m timestamp records ∧
          second.stderr = settings.outputs m timestamp' records := by
  unfold run at hfirst hsecond
  cases hrequest : Request.ofArguments arguments with
  | help =>
    rw [hrequest] at hfirst hsecond
    obtain ⟨rfl, rfl⟩ := Prod.mk.inj hfirst
    obtain ⟨rfl, rfl⟩ := Prod.mk.inj hsecond
    exact ⟨rfl, rfl, rfl, {}, .plain, [], rfl, rfl⟩
  | usage e =>
    rw [hrequest] at hfirst
    obtain ⟨rfl, -⟩ := Prod.mk.inj hfirst
    nomatch hexit
  | run o =>
    rw [hrequest] at hfirst hsecond
    dsimp only at hfirst hsecond
    have hzero : (runOptions timestamp environment o fs).1.exit = .ok 0 := by rw [hfirst, hexit]
    obtain ⟨m, records, _, hruns⟩ := exists_runOptions_eq hzero (hdistinct o · hrequest)
    obtain ⟨rfl, rfl⟩ := Prod.mk.inj ((hruns timestamp).1.symm.trans hfirst)
    obtain ⟨rfl, rfl⟩ := Prod.mk.inj ((hruns timestamp').2.symm.trans hsecond)
    exact ⟨rfl, rfl, rfl, o.settings, m, records, rfl, rfl⟩

/-- A command line whose output goes through a directory that is not there yet. -/
def climbingArguments : List String := ["api.json", "-o", "new/../out/api.ts", "-v"]

/-- A directory with a catalog file that defines nothing. -/
def hollowCatalogDirectory : FileSystem := catalogDirectory "\x7b\"types\":[]\x7d".toUTF8

/-- The directory is made in the first run and found in the second, which changes nothing. -/
theorem climbing_output_run_again :
    let first := run "1" (fun _ => none) climbingArguments hollowCatalogDirectory
    let second := run "2" (fun _ => none) climbingArguments first.2
    first.1.exit = .ok 0 ∧ second.1.exit = .ok 0 ∧ second.1.stdout = first.1.stdout ∧
      second.2 = first.2 := by
  intro first second
  have hexit : first.1.exit = .ok 0 := by decide +kernel
  have hdistinct (o : Options) (output : Path)
      (ho : Request.ofArguments climbingArguments = .run o) (houtput : o.output = some output) :
      hollowCatalogDirectory.destination o.catalog ≠ hollowCatalogDirectory.destination output := by
    have hrequest : Request.ofArguments climbingArguments = .run
        ⟨.ofText "api.json", some (.ofText "new/../out/api.ts"), "T", false, true, false⟩ := by
      decide +kernel
    obtain rfl := Request.run.inj (hrequest.symm.trans ho)
    obtain rfl := Option.some.inj houtput
    decide +kernel
  obtain ⟨hsecond, hstdout, hafter, -⟩ :=
    run_again (Prod.eta first).symm (Prod.eta second).symm hexit hdistinct
  exact ⟨hexit, hsecond, hstdout, hafter⟩

end TypeCatalog.Command
