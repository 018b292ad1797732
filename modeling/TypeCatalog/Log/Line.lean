import TypeCatalog.Json.Write
import TypeCatalog.Log.Loggers
import TypeCatalog.Text.Marking

/-!
# Log/Line — which events are written, and how

`Settings` say how much is written and in which of two forms. An event is written if its level
reaches the threshold of its logger (`Settings.shows`): the program's own loggers show everything
when asked to be verbose, all others show warnings and what is worse. A line is either made for
reading (`consoleLine`), with a stack and the text of an exception after it, or a JSON object
(`jsonLine`). The texts of a record may be spelled with marks (`Text.Marking`); on a line, halves of
pairs are escaped.

`Step` is what can happen to the log from outside, and `State.step` what is written then. The state
has all that outlasts a step: the loggers with their levels, the handlers of the root, and the
definition that is bound with those that open blocks will give back.
-/

namespace TypeCatalog.Log

open TypeCatalog.Text

/-- How events are written. -/
structure Settings where
  /-- Whether the program's own events are written whatever their level. -/
  verbose : Bool := false
  /-- Whether a line is a JSON object. -/
  json : Bool := false
  deriving DecidableEq, Repr

/-- The logger above all loggers of the program. -/
def ownLogger : String := "tsgen"

/-- Whether a logger is one of the program. -/
def isOwn (logger : String) : Bool :=
  logger == ownLogger || (ownLogger ++ ".").toList.isPrefixOf logger.toList

/-- The least level that a logger's events must have to be written. -/
def Settings.threshold (s : Settings) (logger : String) : Level :=
  if s.verbose && isOwn logger then .debug else .warning

/-- Whether an event is written. -/
def Settings.shows (s : Settings) (e : Event) : Bool :=
  (s.threshold e.logger).rank ≤ e.level.rank

/-! ## Lines -/

/-- The names of what every line says of an event. -/
def ownFields : List String := ["event", "level", "logger", "timestamp"]

/-- A logger as lines name it; the one without a name is the root. -/
def loggerName (logger : String) : String := if logger = "" then "root" else logger

/-- The names that a handler takes for itself; a field of such a name is lost. -/
def handlerFields : List String := ["_record", "_from_structlog"]

/-- The definition and the fields of a record. A field wins over a definition of its name, and what
every line says of an event wins over fields. -/
def Record.shownFields (r : Record) : List (String × Value) :=
  let fields := r.event.fields.filter fun f =>
    !ownFields.contains f.1 && !handlerFields.contains f.1
  match r.definition with
  | none => fields
  | some d =>
    if (fields.map (·.1)).contains "definition" then fields
    else ("definition", .string d) :: fields

/-- A line that is a JSON object. -/
def jsonLine (timestamp : String) (r : Record) : String :=
  Json.objectText
    ([("event", Json.stringText r.event.text),
      ("level", Json.stringText r.event.level.word),
      ("logger", Json.stringText (loggerName r.event.logger)),
      ("timestamp", Json.stringText timestamp)] ++
    r.shownFields.map fun (k, v) => (k, Json.line v))

/-- Whether a text has to be quoted on a line. -/
def needsQuoting (text : String) : Bool :=
  text.toList.any fun c => " \t=\r\n\"'".toList.contains c

/-- The value of a field on a line. -/
def fieldText (m : Marking) : Value → String
  | .string s => if needsQuoting s then m.printed (quoted s) else m.shown s
  | v => (v.printed?).getD ""

/-- A text filled up with spaces to a width. -/
def padded (width : Nat) (text : String) : String :=
  text ++ String.ofList (List.replicate (width - text.length) ' ')

/-- A field with its name on a line. -/
def fieldPair (m : Marking) (field : String × Value) : String :=
  field.1 ++ "=" ++ fieldText m field.2

/-- The field that stands on a line beside the logger, in brackets too. -/
def besideLogger : String := "logger_name"

/-- That field on a line. -/
def bracketed (m : Marking) : Value → String
  | .string s => "[" ++ m.shown s ++ "]"
  | v => "[" ++ (v.printed?).getD "" ++ "]"

/-- The names of the fields that are not shown on a line made for reading. Two of them give text
that comes after it. -/
def trailingFields : List String := ["stack", "exception", "exc_info"]

/-- The fields that are shown on a line made for reading. -/
def Record.lineFields (r : Record) : List (String × Value) :=
  r.shownFields.filter fun f => !trailingFields.contains f.1

/-- What stands under a name that is not shown on the line; null counts as nothing. -/
def Record.trailing? (r : Record) (name : String) : Option Value :=
  match r.shownFields.lookup name with
  | some .null => none
  | v? => v?

/-- The line that keeps a stack and an exception apart. -/
def separator : String := "\n\n" ++ String.ofList (List.replicate 79 '=') ++ "\n"

/-- What comes after a line made for reading: a stack, and the text of an exception. -/
def Record.trail (m : Marking) (r : Record) : String :=
  let exception := r.trailing? "exception"
  let stack := match r.trailing? "stack" with
    | some (.string s) =>
      "\n" ++ m.shown s ++
        if exception.isSome || (r.trailing? "exc_info").any Value.isTruthy then separator else ""
    | _ => ""
  match exception with
  | some (.string s) => stack ++ "\n" ++ m.shown s
  | _ => stack

/-- A line made for reading: a field without a name, what every line says of an event, the field
that stands beside the logger, and the other fields by name. -/
def consoleLine (m : Marking) (timestamp : String) (r : Record) : String :=
  let fields := Json.sortEntries r.lineFields
  let (unnamed, named) := fields.partition (·.1 = "")
  let (beside, others) := named.partition (·.1 = besideLogger)
  let head := [timestamp, "[" ++ padded 9 r.event.level.word ++ "]", padded 30 r.event.text,
    "[" ++ loggerName r.event.logger ++ "]"]
  " ".intercalate (unnamed.map (fieldPair m) ++ head ++ beside.map (bracketed m ·.2) ++
    others.map (fieldPair m)) ++ r.trail m

/-- Whether a value is a text. -/
def isText : Value → Bool
  | .string _ => true
  | _ => false

/-- **Whether a record can be written** in one of the two forms: no integer that is shown has too
many digits, and what comes after a line made for reading is text. -/
def Record.isWritable (json : Bool) (r : Record) : Bool :=
  if json then r.shownFields.all fun f => (f.2.printed?).isSome
  else
    (r.lineFields.all fun f => (f.2.printed?).isSome) &&
      ["stack", "exception"].all fun name => (r.trailing? name).all isText

/-- The line of a record. -/
def Settings.line (s : Settings) (m : Marking) (timestamp : String) (r : Record) : String :=
  if s.json then m.printed (jsonLine timestamp r) else consoleLine m timestamp r

/-- **What is written of a record**: nothing, or its line. -/
def Settings.output (s : Settings) (m : Marking) (timestamp : String) (r : Record) : String :=
  if s.shows r.event && r.isWritable s.json then s.line m timestamp r ++ "\n" else ""

/-- What is written of several records. -/
def Settings.outputs (s : Settings) (m : Marking) (timestamp : String) (rs : List Record) :
    String :=
  String.join (rs.map (s.output m timestamp))

/-! ## Runs -/

/-- What can happen to the log. -/
inductive Step where
  /-- The settings are chosen, for the first time or anew. -/
  | configure (s : Settings)
  /-- A definition is bound. -/
  | bind (name : String)
  /-- The latest binding ends. -/
  | unbind
  /-- An event of the program, or of a part that logs as it does. -/
  | event (e : Event)
  /-- An event of a part that knows nothing of fields. -/
  | foreign (logger : String) (level : Level) (text : String)

/-- What writes the events that reach it, in one of the two forms. -/
structure Handler where
  json : Bool
  deriving DecidableEq, Repr

/-- What a handler writes of a record. Of one that cannot be written it writes nothing. -/
def Handler.output (h : Handler) (timestamp : String) (r : Record) : String :=
  if r.isWritable h.json then Settings.line { json := h.json } .plain timestamp r ++ "\n" else ""

/-- What outlasts a step. -/
structure State where
  loggers : Loggers := {}
  /-- The handlers of the root. -/
  handlers : List Handler := []
  /-- The definition that is bound. -/
  definition : Option String := none
  /-- What was bound before each open block, the latest first. -/
  outer : List (Option String) := []

namespace State

/-- Takes all handlers from the root. -/
def clearHandlers (s : State) : State := { s with handlers := [] }

/-- Gives the root another handler. -/
def addHandler (s : State) (h : Handler) : State := { s with handlers := s.handlers ++ [h] }

/-- Chooses the settings: one handler, the level of the root, and that of the program's loggers. -/
def configure (s : State) (settings : Settings) : State :=
  let s := (s.clearHandlers).addHandler ⟨settings.json⟩
  { s with
    loggers := (s.loggers.setRootLevel .warning).setLevel ownLogger
      (if settings.verbose then .debug else .warning) }

/-- Enters a block in which a definition is bound. -/
def enter (s : State) (name : String) : State :=
  { s with definition := some name, outer := s.definition :: s.outer }

/-- Leaves the latest block, if there is one. -/
def leave (s : State) : State :=
  match s.outer with
  | [] => s
  | d :: rest => { s with definition := d, outer := rest }

/-- An event: its logger decides whether the handlers get it. -/
def log (timestamp : String) (s : State) (e : Event) : State × String :=
  let loggers := s.loggers.use e.logger
  ({ s with loggers := loggers.settle e.logger e.level },
    if loggers.takes e.logger e.level then
      String.join (s.handlers.map fun h => h.output timestamp ⟨e, s.definition⟩)
    else "")

/-- What a state becomes, and what is written. -/
def step (timestamp : String) (s : State) : Step → State × String
  | .configure settings => (s.configure settings, "")
  | .bind name => (s.enter name, "")
  | .unbind => (s.leave, "")
  | .event e => s.log timestamp e
  | .foreign logger level text => s.log timestamp { logger, level, text }

/-- What each step of a run writes. -/
def run (timestamp : String) : State → List Step → List String
  | _, [] => []
  | s, step :: rest =>
    let (after, text) := s.step timestamp step
    text :: State.run timestamp after rest

end State

end TypeCatalog.Log
