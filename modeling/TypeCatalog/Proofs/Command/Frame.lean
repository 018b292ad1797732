import TypeCatalog.Proofs.Command.Outcome
import TypeCatalog.Proofs.FileSystem.Way
import TypeCatalog.Proofs.Generation.Records

/-!
# Proofs/Command/Frame — to write declarations is to touch their file and nothing else

Generation comes first and touches nothing.  What is written after it stands at the place that the
output means; beside it only the directories that were missing on the way there are new (`Places`).
If the output cannot be opened, all files are left as they were.  If it can, and what it is opened
for turns out to have no encoding, it is left empty.  Neither is noted as done
(`writeDeclarations_frame`).
-/

namespace TypeCatalog.Command

open FileSystem Log Text

variable {m : Marking} {p : Profile} {c : Catalog} {output : Path} {j j' : Journal}
  {fs after : FileSystem} {out : Output}

theorem writeDeclarations_of_ungenerated {e : GenerationError}
    (hrun : (generate p c).run.run j = (.error e, j')) :
    writeDeclarations m p c output j fs = ⟨.error (.generation e), j', fs⟩ := by
  rw [writeDeclarations, hrun]

/-- Contents stand where the output leads, which is no directory that was there, and the directories
that were missing on the way have been made.  All else is as it was. -/
structure Places (fs : FileSystem) (output : Path) (contents : ByteArray) (after : FileSystem) :
    Prop where
  free : fs.get? (fs.destination output) ≠ some .directory
  read : after.read output = .ok contents
  get? : ∀ place, after.get? place =
    if place = fs.destination output then some (.file contents)
    else if place ∈ fs.way output.parent ∧ fs.get? place = none then some .directory
    else fs.get? place

/-- Nothing new in a journal says that declarations were written. -/
def Unnoted (j j' : Journal) : Prop :=
  ∃ rs, j'.records = j.records ++ rs ∧ ∀ r ∈ rs, r.event.text ≠ "Wrote declarations"

theorem places_of_store {contents : ByteArray} (h : fs.store output contents = (.ok (), after)) :
    Places fs output contents after :=
  have ⟨_, hstored⟩ := stored_of_store h
  ⟨get?_destination_ne_of_store h, hstored.read, get?_store h⟩

/-- What the generation logs is no note about a file. -/
theorem unnoted_of_generate (hrun : (generate p c).run.run j = (.ok out, j')) : Unnoted j j' := by
  obtain ⟨blocks, hblocks, hrecords⟩ := exists_blocks_of_generate hrun
  refine ⟨blocks.flatten, hrecords, List.forall_mem_flatten.mpr ?_⟩
  refine Related.forall_mem_of_forall₂ (fun d _ block hblock r hr => ?_) hblocks
  obtain hevent | ⟨name, hevent⟩ := hblock.event r hr
  · rw [hevent]
    decide
  · rw [hevent]
    change "Skipping property without a type" ≠ _
    decide

/-- What a write that fails leaves behind: directories on the way to the output, and no file. -/
theorem grows_of_store_error {contents : ByteArray} {e : FileError}
    (hstore : fs.store output contents = (.error e, after)) (place : List String) :
    (∀ contents,
      after.get? place = some (.file contents) ↔ fs.get? place = some (.file contents)) ∧
    (after.get? place ≠ fs.get? place →
      place ∈ fs.way output.parent ∧ fs.get? place = none ∧
        after.get? place = some .directory) := by
  obtain ⟨hgrows, -⟩ := store_error hstore
  refine ⟨hgrows.file_iff place, fun hchanged => ⟨mem_way_of_store_error hstore hchanged, ?_⟩⟩
  exact (hgrows.get? place).resolve_left hchanged

/-- **To write declarations touches nothing but their file and the directories missing on the way
to it**, and nothing at all if none are generated.  If their file cannot be opened, no file changes;
if they have no encoding, it is left empty.  Neither is noted as a success. -/
theorem writeDeclarations_frame (m : Marking) (p : Profile) (c : Catalog) (output : Path)
    (j : Journal) (fs : FileSystem) :
    let generated := ((generate p c).run.run j).1
    let ⟨result, journal, after⟩ := writeDeclarations m p c output j fs
    (∀ out, result = .ok out → generated = .ok out ∧
      (∃ contents, m.encode? out.code = some contents ∧ Places fs output contents after) ∧
      journal.records.getLast? = some ⟨wroteEvent m output out, j.bound⟩) ∧
    (∀ e, (generated = .error e ↔ result = .error (.generation e)) ∧
      (generated = .error e → after = fs)) ∧
    (∀ e, result = .error (.file e) →
      (∀ place, (∀ contents,
          after.get? place = some (.file contents) ↔ fs.get? place = some (.file contents)) ∧
        (after.get? place ≠ fs.get? place →
          place ∈ fs.way output.parent ∧ fs.get? place = none ∧
            after.get? place = some .directory)) ∧
      Unnoted j journal) ∧
    (result = .error .encoding ↔ ∃ out, generated = .ok out ∧ m.encode? out.code = none ∧
      (fs.store output .empty).1 = .ok ()) ∧
    (result = .error .encoding → Places fs output .empty after ∧ Unnoted j journal) := by
  obtain ⟨j', hrun, hbound, -⟩ := generate_performs p c j
  generalize (c.mapM (entryTree p)).map (TypeCatalog.output p) = generated at hrun
  cases generated with
  | error e =>
    rw [writeDeclarations_of_ungenerated hrun, hrun]
    refine ⟨nofun, fun e' => ⟨?_, fun _ => rfl⟩, nofun, ⟨nofun, nofun⟩, nofun⟩
    simp only [Except.error.injEq, WriteError.generation.injEq]
  | ok out =>
    have hunnoted := unnoted_of_generate hrun
    cases hstore : fs.store output ((m.encode? out.code).getD .empty) with
    | mk stored after =>
      cases stored with
      | error e =>
        rw [writeDeclarations_of_error hrun hstore, hrun]
        refine ⟨nofun, fun e' => ⟨⟨nofun, nofun⟩, nofun⟩,
          fun _ _ => ⟨grows_of_store_error hstore, hunnoted⟩, ⟨nofun, ?_⟩, nofun⟩
        rintro ⟨_, ⟨⟩, hcode, hopened⟩
        rw [hcode, Option.getD_none] at hstore
        nomatch hopened.symm.trans (congrArg Prod.fst hstore)
      | ok done =>
        cases hcode : m.encode? out.code with
        | some contents =>
          rw [hcode, Option.getD_some] at hstore
          rw [writeDeclarations_of_stored hrun hcode hstore, hrun]
          refine ⟨?_, fun e' => ⟨⟨nofun, nofun⟩, nofun⟩, nofun, ⟨nofun, ?_⟩, nofun⟩
          · rintro _ ⟨⟩
            refine ⟨rfl, ⟨contents, hcode, places_of_store hstore⟩, ?_⟩
            rw [List.getLast?_concat, hbound]
          · rintro ⟨_, ⟨⟩, hnone, -⟩
            nomatch hcode.symm.trans hnone
        | none =>
          rw [hcode, Option.getD_none] at hstore
          rw [writeDeclarations_of_unencoded hrun hcode hstore, hrun]
          exact ⟨nofun, fun e' => ⟨⟨nofun, nofun⟩, nofun⟩, nofun,
            ⟨fun _ => ⟨out, rfl, hcode, congrArg Prod.fst hstore⟩, fun _ => rfl⟩,
            fun _ => ⟨places_of_store hstore, hunnoted⟩⟩

/-- Half a pair of units in the only name of a code. -/
def halfNamedCode : String :=
  String.ofList (withMarks "declare namespace T \x7b\n  export type ".toList ++
    (unitText 0xD800 ++ " = string\n\x7d\n\nexport default T".toList))

/-- A file that is there already does not keep what it held if declarations without encoding are
written to it, though that fails. -/
theorem half_named_output_emptied :
    let written := writeDeclarations .marked {} [.stringAlias (String.ofList (unitText 0xD800))]
      (.ofText "api.ts") {} halfNamed
    ¬ ∀ e, written.result = .error e → SameFilesBut none halfNamed written.fileSystem := by
  intro written h
  have hgenerate : ((generate {} [.stringAlias (String.ofList (unitText 0xD800))]).run.run {}).1 =
      .ok ⟨halfNamedCode, 1, 0⟩ := by decide +kernel
  have hcode : Marking.marked.encode? halfNamedCode = none :=
    Marking.encode?_eq_none (by decide) _ _
  have hstore : halfNamed.store (.ofText "api.ts") .empty =
      (.ok (), halfNamed.put ["api.ts"] (.file .empty)) := by rfl
  have hwritten : written = ⟨.error .encoding, _, halfNamed.put ["api.ts"] (.file .empty)⟩ :=
    writeDeclarations_of_unencoded (Prod.ext hgenerate rfl) hcode hstore
  rw [hwritten] at h
  have hsame := h _ rfl ["api.ts"] nofun .empty
  rw [get?_put_self, iff_true_left rfl] at hsame
  exact absurd hsame (by decide +kernel)

end TypeCatalog.Command
