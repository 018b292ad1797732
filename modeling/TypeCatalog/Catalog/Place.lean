import TypeCatalog.Value.Basic

/-!
# Catalog/Place — where something stands in a document

A `Place` leads from the list of a catalog's entries to a part of it, by keys of objects and
positions in lists. `Place.find?` follows it, `Place.replace` puts another value where it leads, and
`Place.text` writes it as messages do.
-/

namespace TypeCatalog

/-- One step into a value. -/
inductive Step where
  | key (name : String)
  | index (i : Nat)
  deriving DecidableEq, Repr

/-- The steps from the list of entries to a part of it. -/
structure Place where
  steps : List Step := []
  deriving DecidableEq, Repr

namespace Place

/-- The place under a key. -/
def key (w : Place) (name : String) : Place := ⟨w.steps ++ [.key name]⟩

/-- The place at a position. -/
def index (w : Place) (i : Nat) : Place := ⟨w.steps ++ [.index i]⟩

/-- The text of a step. -/
def stepText : Step → String
  | .key name => "." ++ name
  | .index i => "[" ++ toString i ++ "]"

/-- The text of a place. -/
def text (w : Place) : String := "types" ++ String.join (w.steps.map stepText)

/-- The part of a value that steps lead to, if they lead anywhere. -/
def follow? : List Step → Value → Option Value
  | [], v => some v
  | .key name :: rest, .object entries => (Value.lookup name entries).bind (follow? rest)
  | .index i :: rest, .list items => items[i]?.bind (follow? rest)
  | _ :: _, _ => none

/-- The part of a list of entries that a place leads to. -/
def find? (w : Place) (entries : Value) : Option Value := follow? w.steps entries

/-- A value with another part where steps lead; a key that is missing is added. -/
def replace (new : Value) : List Step → Value → Value
  | [], _ => new
  | .key name :: rest, .object entries =>
    .object (Value.insert entries (.string name)
      (replace new rest ((Value.lookup name entries).getD .null)))
  | .index i :: rest, .list items => .list (items.set i (replace new rest (items[i]?.getD .null)))
  | _ :: _, v => v

/-- The place that further steps lead to. -/
def through (w : Place) (steps : List Step) : Place := ⟨w.steps ++ steps⟩

@[simp] theorem steps_key (w : Place) (name : String) :
    (w.key name).steps = w.steps ++ [.key name] := rfl

@[simp] theorem steps_index (w : Place) (i : Nat) :
    (w.index i).steps = w.steps ++ [.index i] := rfl

@[simp] theorem through_nil (w : Place) : w.through [] = w := by rw [through, List.append_nil]

/-- Steps lead on from where the steps before them led. -/
theorem follow?_append (steps steps' : List Step) (v : Value) :
    follow? (steps ++ steps') v = (follow? steps v).bind (follow? steps') := by
  induction steps generalizing v with
  | nil => rfl
  | cons step steps ih =>
    rw [List.cons_append]
    cases step with
    | key name =>
      cases v with
      | object entries =>
        rw [follow?, follow?, Option.bind_assoc]
        exact congrArg _ (funext ih)
      | _ => rfl
    | index i =>
      cases v with
      | list items =>
        rw [follow?, follow?, Option.bind_assoc]
        exact congrArg _ (funext ih)
      | _ => rfl

theorem through_key (w : Place) (name : String) (steps : List Step) :
    w.through (.key name :: steps) = (w.key name).through steps := by
  simp [through]

theorem through_index (w : Place) (i : Nat) (steps : List Step) :
    w.through (.index i :: steps) = (w.index i).through steps := by
  simp [through]

end Place

end TypeCatalog
