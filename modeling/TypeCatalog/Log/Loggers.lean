import TypeCatalog.Log.Event

/-!
# Log/Loggers — loggers by name, and the levels that they inherit

The dots in the names of loggers order them below one another, and all below the root, which has no
name.  A logger whose level is not set has that of the logger above it.  Only loggers that have been
asked for are found above others; so the logger above a name is the one with the longest of its
prefixes that is in use (`Loggers.inherited`).  Whether a logger takes events of a level is decided
once, and again after a level is set.
-/

namespace TypeCatalog.Log

/-- Whether a name is that of the root. -/
def isRoot (logger : String) : Bool := logger == "" || logger == "root"

/-- What is known of loggers. -/
structure Loggers where
  rootLevel : Level := .warning
  /-- The levels that are set, by the names of their loggers. -/
  levels : List (String × Level) := []
  /-- The loggers in use. -/
  names : List String := []
  /-- What has been decided of loggers and levels. -/
  decided : List ((String × Level) × Bool) := []

namespace Loggers

/-- A logger is asked for. -/
def use (l : Loggers) (logger : String) : Loggers :=
  if isRoot logger || l.names.contains logger then l else { l with names := logger :: l.names }

/-- Sets the level of the root. -/
def setRootLevel (l : Loggers) (level : Level) : Loggers :=
  { l with rootLevel := level, decided := [] }

/-- Sets the level of a logger with a name. -/
def setLevel (l : Loggers) (logger : String) (level : Level) : Loggers :=
  { l.use logger with
    levels := (logger, level) :: l.levels.filter (·.1 != logger), decided := [] }

/-- The level that comes from above to the logger whose name is this text backwards.  From a dot the
search goes on two characters before it, so it passes over every second one of dots in a row. -/
def inherited (l : Loggers) : List Char → Level
  | '.' :: c :: rest =>
    let above := String.ofList (c :: rest).reverse
    if l.names.contains above then (l.levels.lookup above).getD (l.inherited (c :: rest))
    else l.inherited rest
  | _ :: rest => l.inherited rest
  | [] => l.rootLevel

/-- The level of a logger, its own or that from above. -/
def effectiveLevel (l : Loggers) (logger : String) : Level :=
  if isRoot logger then l.rootLevel
  else (l.levels.lookup logger).getD (l.inherited logger.toList.reverse)

/-- Whether a logger takes events of a level. -/
def takes (l : Loggers) (logger : String) (level : Level) : Bool :=
  (l.decided.lookup (logger, level)).getD ((l.effectiveLevel logger).rank ≤ level.rank)

/-- What has been decided stays so. -/
def settle (l : Loggers) (logger : String) (level : Level) : Loggers :=
  { l with decided := ((logger, level), l.takes logger level) :: l.decided }

end Loggers

end TypeCatalog.Log
