import TypeCatalog.Declaration.Namespace
import TypeCatalog.FileSystem.Basic
import TypeCatalog.Text.Marking

/-!
# Command/Write — declarations in a file

`writeDeclarations` generates first, then makes the directories on the way to the output, then opens
it, and then writes. So nothing is touched if generation fails; and the note that says what was
written comes last. But opening a file empties it: a code that no bytes encode, since half a pair of
units stands in one of its names, leaves an empty file behind.
-/

namespace TypeCatalog

open TypeCatalog.Log TypeCatalog.Text

/-- Why no declarations were written. -/
inductive WriteError where
  | generation (e : GenerationError)
  | file (e : FileError)
  /-- The code has no encoding. -/
  | encoding
  deriving DecidableEq, Repr

/-- The note about a file that was written. -/
def wroteEvent (m : Marking) (output : Path) (o : Output) : Event where
  logger := generatorLogger
  level := .info
  text := "Wrote declarations"
  fields := [("path", .string (m.spell output.text)), ("emitted", .int o.emitted),
    ("skipped", .int o.skipped)]

namespace FileSystem

/-- Writes a file, making the directories on the way to it. -/
def store (fs : FileSystem) (output : Path) (contents : ByteArray) :
    Except FileError Unit × FileSystem :=
  match fs.makeDirectories output.parent with
  | (.error e, after) => (.error e, after)
  | (.ok (), after) =>
    match after.write output contents with
    | .error e => (.error e, after)
    | .ok written => (.ok (), written)

/-- Writes a text to a file by its encoding. If it has none, that shows when the file is open and
empty. -/
def storeText (fs : FileSystem) (output : Path) (encoding? : Option ByteArray) :
    Except WriteError Unit × FileSystem :=
  match fs.store output (encoding?.getD .empty) with
  | (.error e, after) => (.error (.file e), after)
  | (.ok (), after) => (if encoding?.isSome then .ok () else .error .encoding, after)

end FileSystem

/-- What came of writing declarations. -/
structure Written where
  result : Except WriteError Output
  journal : Journal
  fileSystem : FileSystem

/-- **Writes the declarations of a catalog to a file.** The texts of the catalog and of the profile
are spelled in one way. -/
def writeDeclarations (m : Marking) (p : Profile) (c : Catalog) (output : Path) (j : Journal)
    (fs : FileSystem) : Written :=
  match (generate p c).run.run j with
  | (.error e, j) => ⟨.error (.generation e), j, fs⟩
  | (.ok o, j) =>
    match fs.storeText output (m.encode? o.code) with
    | (.error e, after) => ⟨.error e, j, after⟩
    | (.ok (), after) =>
      let j := { j with records := j.records ++ [⟨wroteEvent m output o, j.bound⟩] }
      ⟨.ok o, j, after⟩

end TypeCatalog
