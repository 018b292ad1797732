import TypeCatalog.Catalog.Knot
import TypeCatalog.Catalog.Load
import TypeCatalog.FileSystem.Path
import TypeCatalog.Json.Read
import TypeCatalog.Text.FileText

/-!
# Catalog/File — catalogs from files

The suffix of a file's name decides the format: YAML for its two suffixes; for all other names JSON,
and YAML for a text that is not JSON. Of what the readers report, a text that is in no format is a
defect of the catalog; the other causes are passed on as they are.
-/

namespace TypeCatalog

/-- What a reader of YAML reports, as a reason why no catalog is loaded. -/
def LoadError.ofFault : Yaml.Fault → LoadError
  | .malformed => .defect .unreadable
  | fault => .source (.scalar fault)

/-- Reads YAML text. -/
def Value.ofYaml (text : String) : Loaded Value :=
  match Yaml.read text with
  | .ok v => .ok v
  | .error fault => .error (.ofFault fault)

/-- Reads JSON text, or YAML text if it is not JSON. -/
def Value.ofJsonOrYaml (text : String) : Loaded Value :=
  match Json.read (Json.inMarking text) with
  | .ok v => .ok v
  | .error .malformed => Value.ofYaml text
  | .error .oversizedInteger => .error (.source .oversizedInteger)

/-- The suffixes of YAML files. -/
def yamlSuffixes : List String := [".yaml", ".yml"]

/-- The document of a file. -/
def Value.ofFile (path : Path) (bytes : ByteArray) : Loaded Value :=
  match Text.fileText? bytes with
  | none => .error (.source .encoding)
  | some text =>
    if path.suffix ∈ yamlSuffixes then Value.ofYaml text else Value.ofJsonOrYaml text

/-- Whether a text is read as YAML. -/
def isYaml (path : Path) (text : String) : Bool :=
  path.suffix ∈ yamlSuffixes || Json.read (Json.inMarking text) matches .error .malformed

/-- The graph of a text that is read as YAML, if its document is knotted. -/
def knot? (path : Path) (text : String) : Option Yaml.Graph :=
  if isYaml path text then
    match Yaml.graph? text with
    | .ok (some g) => if g.isKnotted then some g else none
    | _ => none
  else none

/-- What is reported of a text, given what is reported of its value. Kinds are written out without
marks. -/
def LoadError.ofText (path : Path) (text : String) : LoadError → LoadError
  | .defect d =>
    match (knot? path text).elim (some d) d.within? with
    | some d => .defect (d.mapKind fun _ => (Text.Marking.ofText text).printed)
    | none => .source .endless
  | e => e

/-- **Reads the catalog of a file.** -/
def Catalog.ofFile (path : Path) (bytes : ByteArray) : Loaded Catalog :=
  match Value.ofFile path bytes with
  | .error e => .error e
  | .ok (.object entries) =>
    (Catalog.ofDocument entries).mapError fun e =>
      (Text.fileText? bytes).elim e fun text => e.ofText path text
  | .ok _ => Loaded.refuse .documentNotObject

/-- A catalog of a file is that of the document in it. -/
theorem Catalog.ofFile_eq_ok {path : Path} {bytes : ByteArray} {c : Catalog} :
    Catalog.ofFile path bytes = .ok c ↔ ∃ entries,
      Value.ofFile path bytes = .ok (.object entries) ∧ Catalog.ofDocument entries = .ok c := by
  constructor
  · intro h
    rw [Catalog.ofFile] at h
    split at h
    · cases h
    · next entries hread =>
      refine ⟨entries, hread, ?_⟩
      cases hload : Catalog.ofDocument entries with
      | ok c' =>
        rw [hload] at h
        exact h
      | error e =>
        rw [hload] at h
        cases h
    · cases h
  · rintro ⟨entries, hread, hload⟩
    rw [Catalog.ofFile, hread]
    exact congrArg (Except.mapError _) hload

end TypeCatalog
