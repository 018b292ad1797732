import TypeCatalog.Value.Basic

/-!
# Log/Event — events, and the run that logs them

An `Event` says what happened, where and how much it matters. While a definition is being worked on
its name is bound, and every event logged then carries it as a `Record`. A `Logged` computation may
fail; what it has logged stays in the `Journal` either way, and `within` gives back the binding
that was there before, whether the work inside succeeded or not.
-/

namespace TypeCatalog.Log

/-- How much an event matters. -/
inductive Level where
  | debug
  | info
  | warning
  | error
  | critical
  deriving DecidableEq, Repr

namespace Level

/-- The place of a level in the order of levels. -/
def rank : Level → Nat
  | debug => 10
  | info => 20
  | warning => 30
  | error => 40
  | critical => 50

/-- The word for a level. -/
def word : Level → String
  | debug => "debug"
  | info => "info"
  | warning => "warning"
  | error => "error"
  | critical => "critical"

end Level

/-- What happened. -/
structure Event where
  /-- The part of the program that says so. -/
  logger : String
  level : Level
  text : String
  fields : List (String × Value) := []
  deriving Repr

/-- An event with the definition that was being worked on. -/
structure Record where
  event : Event
  definition : Option String
  deriving Repr

/-- What a run has logged, and the binding in force. -/
structure Journal where
  bound : Option String := none
  /-- The records, the oldest first. -/
  records : List Record := []
  deriving Repr

/-- A computation that logs and may fail. -/
abbrev Logged (ε α : Type) := ExceptT ε (StateM Journal) α

namespace Logged

variable {ε α : Type}

/-- Logs an event under the binding in force. -/
def log (e : Event) : Logged ε Unit :=
  modify fun j => { j with records := j.records ++ [⟨e, j.bound⟩] }

/-- A result that logs nothing. -/
def ofExcept (r : Except ε α) : Logged ε α := ExceptT.mk (pure r)

/-- Binds a definition for the length of a computation. -/
def within (name : String) (act : Logged ε α) : Logged ε α :=
  ExceptT.mk fun j =>
    let (r, after) := act.run.run { j with bound := some name }
    (r, { after with bound := j.bound })

/-- The result of a run with nothing bound, and what it logged. -/
def runFresh (act : Logged ε α) : Except ε α × List Record :=
  let (r, j) := act.run.run {}
  (r, j.records)

end Logged

end TypeCatalog.Log
