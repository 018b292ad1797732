import TypeCatalog.Catalog.File
import TypeCatalog.Command.Arguments
import TypeCatalog.Command.Write
import TypeCatalog.Log.Line

/-!
# Command/Run — one run of the command

`Command.run` reads the command line, loads the catalog, and writes its declarations. A catalog that
is missing or refused ends a run with status one and a line that says why; so does a refusal of the
generation. All other failures are passed on as they are (`Failure`), after what was logged.

The texts of a catalog are spelled as its file asks for (`Marking.ofFile`), and so is what goes into
its code from elsewhere.
-/

namespace TypeCatalog.Command

open TypeCatalog.Log TypeCatalog.Text

/-- A failure that a run does not answer itself. -/
inductive Failure where
  | source (e : SourceError)
  | file (e : FileError)
  | generation (e : GenerationError)
  /-- The code has no encoding. -/
  | encoding
  /-- The output names no file. -/
  | noOutput
  deriving DecidableEq, Repr

/-- What came of a run. -/
structure Outcome where
  /-- The exit status, or the failure that ended the run. -/
  exit : Except Failure Nat
  stdout : String := ""
  stderr : String := ""

/-- The line that says why a run ended. -/
def errorLine (message : String) : String := "error: " ++ message ++ "\n"

/-- What is said about a path where nothing stands. -/
def missingMessage (p : Path) : String :=
  "[Errno 2] No such file or directory: " ++ Text.quoted p.text

/-- The end of a run that says why. -/
def refused (log message : String) : Outcome where
  exit := .ok 1
  stderr := log ++ errorLine message

/-- The end of a run after a failure with a file. -/
def fileOutcome (log : String) (e : FileError) : Outcome :=
  if e.fault = .missing then refused log (missingMessage e.path)
  else { exit := .error (.file e), stderr := log }

/-- The end of a run whose catalog was not loaded. -/
def loadOutcome : LoadError → Outcome
  | .defect d => refused "" d.message
  | .source e => { exit := .error (.source e) }

/-- The end of a run whose declarations were not generated. -/
def generationOutcome (log : String) (e : GenerationError) : Outcome :=
  match e with
  | .namelessEntry => { exit := .error (.generation e), stderr := log }
  | e => refused log e.message

/-- The log settings that a command line asks for. -/
def Options.settings (o : Options) : Settings := ⟨o.verbose, o.logJson⟩

/-- The profile that a command line and an environment ask for. -/
def Options.profile (o : Options) (environment : String → Option String) : Profile :=
  let p := Profile.ofEnvironment environment o.namespaceName
  if o.enumAsUnion then { p with enumAsUnion := true } else p

/-- A profile in the spelling of a document. -/
def spelledProfile (m : Marking) (p : Profile) : Profile :=
  { p with namespaceName := m.spell p.namespaceName }

/-- Writes the declarations of a catalog. That no file is named for them shows only after they have
been generated. -/
def writeOutcome (m : Marking) (settings : Settings) (timestamp : String) (p : Profile)
    (c : Catalog) (output : Option Path) (fs : FileSystem) : Outcome × FileSystem :=
  match output with
  | some output =>
    let w := writeDeclarations m p c output {} fs
    let log := settings.outputs m timestamp w.journal.records
    match w.result with
    | .ok _ => ({ exit := .ok 0, stderr := log }, w.fileSystem)
    | .error (.file e) => (fileOutcome log e, w.fileSystem)
    | .error .encoding => ({ exit := .error .encoding, stderr := log }, w.fileSystem)
    | .error (.generation e) => (generationOutcome log e, w.fileSystem)
  | none =>
    let (result, records) := (generate p c).runFresh
    let log := settings.outputs m timestamp records
    match result with
    | .ok _ => ({ exit := .error .noOutput, stderr := log }, fs)
    | .error e => (generationOutcome log e, fs)

/-- Loads the catalog and writes its declarations. -/
def runOptions (timestamp : String) (environment : String → Option String) (o : Options)
    (fs : FileSystem) : Outcome × FileSystem :=
  match fs.read o.catalog with
  | .error e => (fileOutcome "" e, fs)
  | .ok bytes =>
    match Catalog.ofFile o.catalog bytes with
    | .error e => (loadOutcome e, fs)
    | .ok c =>
      let m := Marking.ofFile bytes
      writeOutcome m o.settings timestamp (spelledProfile m (o.profile environment)) c o.output fs

/-- **Runs the command.** -/
def run (timestamp : String) (environment : String → Option String) (arguments : List String)
    (fs : FileSystem) : Outcome × FileSystem :=
  match Request.ofArguments arguments with
  | .help => ({ exit := .ok 0, stdout := helpText }, fs)
  | .usage e => ({ exit := .ok 2, stderr := e.text }, fs)
  | .run o => runOptions timestamp environment o fs

end TypeCatalog.Command
