/-!
# Declaration/Stability — how far an interface may change

Interfaces that are named as stable carry a comment that says so; of the others, requests and
responses carry one that says the opposite.
-/

namespace TypeCatalog

/-- How far an interface may change. -/
inductive Stability where
  | stable
  | unstable
  deriving DecidableEq, Repr

namespace Stability

/-- The endings of the names of requests and responses. -/
def endings : List String := ["Request", "Response"]

/-- Whether a name is that of a request or a response. -/
def hasEnding (name : String) : Bool :=
  endings.any fun ending => ending.toList.isSuffixOf name.toList

/-- The stability of a name; only requests and responses have one that is not promised. -/
def ofName? (name : String) (stableNames : List String) : Option Stability :=
  if stableNames.contains name then some stable
  else if hasEnding name then some unstable
  else none

/-- The word for a stability. -/
def word : Stability → String
  | stable => "STABLE"
  | unstable => "UNSTABLE"

/-- The lines of the comment. -/
def lines (s : Stability) : List String :=
  ["  /**", "   * @description Stability: " ++ s.word, "   */"]

end Stability

/-- The lines of the comment above an interface; none for most names. -/
def stabilityLines (name : String) (stableNames : List String) : List String :=
  (Stability.ofName? name stableNames).elim [] Stability.lines

/-- The comment as a text, each of its lines ended. -/
def stabilityComment (name : String) (stableNames : List String) : String :=
  String.join ((stabilityLines name stableNames).map (· ++ "\n"))

end TypeCatalog
