import TypeCatalog.Catalog.Defect
import TypeCatalog.Value.Printed
import TypeCatalog.Yaml.NodeValue

/-!
# Catalog/Knot — catalogs in knotted documents

A node of a knotted document may hold itself, and a type expression that is a part of itself is read
without end. Its value is not: the document is unrolled only so far. But that is far enough to tell,
since **a reading that goes further than `Graph.reach` has no end** (`Defect.isBeyond`). And where a
message writes out a kind, dots stand for a node inside itself (`Graph.printed?`).
-/

namespace TypeCatalog

namespace Yaml.Graph

variable (g : Graph)

/-- The node that a step leads to. -/
def step? (n : Nat) : Step → Option Nat
  | .key name =>
    match g.part? n with
    | some (.object entries) =>
      ((g.distinct entries).find? fun e => e.1.value.isString name).map (·.2)
    | _ => none
  | .index i =>
    match g.part? n with
    | some (.list items) => items[i]?
    | _ => none

/-- The node that steps lead to. -/
def follow? (n : Nat) (steps : List Step) : Option Nat := steps.foldlM g.step? n

/-- The value of a node on one line, or none if it holds an integer too long to be written. Dots
stand for a node inside itself. The fuel is more than there are nodes to stand around one. -/
def printed? : Nat → List Nat → Nat → Option String
  | 0, _, _ => none
  | fuel + 1, around, n =>
    let inside := printed? fuel (n :: around)
    match g.part? n with
    | some (.list items) =>
      if n ∈ around then some "[...]"
      else (items.mapM inside).map fun ts => "[" ++ ", ".intercalate ts ++ "]"
    | some (.pairs entries) =>
      if n ∈ around then some "[...]"
      else (entries.mapM fun (k, v) => do
        return "(" ++ (← inside k) ++ ", " ++ (← inside v) ++ ")").map
          fun ts => "[" ++ ", ".intercalate ts ++ "]"
    | some (.object entries) =>
      if n ∈ around then some "\x7b...\x7d"
      else ((g.distinct entries).mapM fun ((k, v) : Key × Nat) => do
        return (← k.value.printed?) ++ ": " ++ (← inside v)).map
          fun ts => "\x7b" ++ ", ".intercalate ts ++ "\x7d"
    | some p => (g.valueOf (fun _ => .null) p).printed?
    | none => Value.null.printed?

/-- The text of the kind of what stands at a place. -/
def kindAt? (w : Place) : Option String :=
  (g.follow? g.root (.key "types" :: w.steps ++ [.key "kind"])).bind
    (g.printed? (g.parts.size + 1) [])

end Yaml.Graph

namespace Defect

/-- Whether a defect is met only further in than any reading comes that has an end. -/
def isBeyond (d : Defect) (g : Yaml.Graph) : Bool :=
  d.place?.any fun w => g.reach < w.steps.length

/-- **What is wrong with a knotted document**, given what is wrong with its value; nothing if there
is no end to the reading. -/
def within? (d : Defect) (g : Yaml.Graph) : Option Defect :=
  if d.isBeyond g then none else some (d.mapKind fun w kind => (g.kindAt? w).getD kind)

end Defect

end TypeCatalog
