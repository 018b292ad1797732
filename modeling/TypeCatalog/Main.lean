import Std.Time.DateTime.Timestamp
import TypeCatalog.Command.Run
import TypeCatalog.Value.Instant

/-!
# Main — the command on a real disk

A run is computed on a `FileSystem` that holds what stands along the two paths of the command line
(`observe`); afterwards, the directories and files that the run has made or changed are made or
written on the disk (`commit`).
-/

namespace TypeCatalog.Command

/-- What a failure that ends a run is about. -/
def Failure.message : Failure → String
  | .source .encoding => "the catalog is not encoded as text"
  | .source .oversizedInteger => "an integer of the catalog has too many digits"
  | .source .endless => "a part of the catalog is part of itself"
  | .source (.scalar _) => "a scalar of the catalog has no value of its type"
  | .generation e => e.message
  | .encoding => "half a pair of units has no encoding"
  | .noOutput => "the output names no file"
  | .file ⟨.missing, p⟩ => missingMessage p
  | .file ⟨.notDirectory, p⟩ => "not a directory: " ++ Text.quoted p.text
  | .file ⟨.isDirectory, p⟩ => "is a directory: " ++ Text.quoted p.text
  | .file ⟨.occupied, p⟩ => "exists already: " ++ Text.quoted p.text
  | .file ⟨.badName, p⟩ => "no name of a file: " ++ Text.quoted p.text
  | .file ⟨.tooLong, p⟩ => "too long a name of a file: " ++ Text.quoted p.text

/-- The path of a place on the disk. -/
def diskPath (place : List String) : String := "/" ++ "/".intercalate place

/-- What stands at a place on the disk. -/
def observePlace (place : List String) : IO (Option Entry) := do
  try
    return some (.file (← IO.FS.readBinFile (diskPath place)))
  catch
    | .inappropriateType .. => return some .directory
    | .noFileOrDirectory .. => return none
    | e => throw e

/-- Adds what stands along a path of names from a place. -/
def observeFrom (fs : FileSystem) (place : List String) : List String → IO FileSystem
  | [] => do
    match ← observePlace place with
    | some e => return fs.put place e
    | none => return fs
  | name :: rest => do
    match ← observePlace place with
    | some .directory =>
      let next := if name = Path.parentPart then place.dropLast else place ++ [name]
      observeFrom (fs.put place .directory) next rest
    | some e => return fs.put place e
    | none => return fs

/-- What stands along the two paths of a run. -/
def observe (o : Options) : IO FileSystem := do
  let home := (Path.ofText (toString (← IO.currentDir))).parts
  let fs : FileSystem := { entries := [], workingDirectory := home }
  let fs ← observeFrom fs (fs.start o.catalog) o.catalog.parts
  match o.output with
  | some output => observeFrom fs (fs.start output) output.parts
  | none => return fs

/-- Makes on the disk what a run has made or changed. -/
def commit (before after : FileSystem) : IO Unit := do
  let changes := after.entries.filter fun (place, e) => before.get? place != some e
  for (place, e) in changes.mergeSort fun a b => a.1.length ≤ b.1.length do
    match e with
    | .directory => IO.FS.createDir (diskPath place)
    | .file contents => IO.FS.writeBinFile (diskPath place) contents

/-- The time now, as log lines give it. -/
def timestampNow : IO String := do
  let now ← Std.Time.Timestamp.now
  return (Moment.ofEpoch (now.toNanosecondsSinceUnixEpoch.val.toNat / 1000)).isoText

end TypeCatalog.Command

open TypeCatalog TypeCatalog.Command in
/-- Runs the command on its arguments. -/
def main (arguments : List String) : IO UInt32 := do
  let wanted ← IO.getEnv Profile.unionVariable
  let environment := fun name => if name = Profile.unionVariable then wanted else none
  let before ← match Request.ofArguments arguments with
    | .run o => observe o
    | _ => pure { entries := [], workingDirectory := [] }
  let (outcome, after) := run (← timestampNow) environment arguments before
  commit before after
  IO.print outcome.stdout
  IO.eprint outcome.stderr
  match outcome.exit with
  | .ok status => return status.toUInt32
  | .error failure =>
    IO.eprintln ("tsgen: " ++ failure.message)
    return 1
