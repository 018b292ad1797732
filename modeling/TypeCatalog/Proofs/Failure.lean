import Mathlib.Data.List.Forall2

/-!
# Proofs/Failure — what a computation fails with

`failure?` is the error of a result, if it is one.  Of two computations one after another the first
failure counts (`failure?_both`), and of one for each item of a list that of the first item that
fails (`failure?_mapM`); if none fails, there is a result for each item (`mapM_eq_ok`).
-/

namespace TypeCatalog.Failure

variable {ε α β : Type}

/-- What a result fails with, if it does. -/
def failure? : Except ε α → Option ε
  | .ok _ => none
  | .error e => some e

/-- A failure is the error of a computation that has failed. -/
theorem failure?_eq_some {x : Except ε α} {e : ε} : failure? x = some e ↔ x = .error e := by
  cases x <;> simp [failure?]

theorem failure?_eq_none {x : Except ε α} : failure? x = none ↔ ∃ a, x = .ok a := by
  cases x <;> simp [failure?]

@[simp] theorem failure?_map (x : Except ε α) (f : α → β) : failure? (x.map f) = failure? x := by
  cases x <;> rfl

/-- A function of a result succeeds exactly if there is a result. -/
theorem map_eq_ok {x : Except ε α} {f : α → β} {b : β} :
    x.map f = .ok b ↔ ∃ a, x = .ok a ∧ f a = b := by
  cases x <;> simp [Except.map]

/-- A sequence succeeds exactly if both parts do. -/
theorem bind_eq_ok {x : Except ε α} {f : α → Except ε β} {b : β} :
    (x >>= f) = .ok b ↔ ∃ a, x = .ok a ∧ f a = .ok b := by
  cases x <;> simp [bind, Except.bind]

/-- Two computations one after another, neither of which depends on the other. -/
def both (x : Except ε α) (y : Except ε β) : Except ε (α × β) := do
  let a ← x
  let b ← y
  return (a, b)

@[simp] theorem failure?_both (x : Except ε α) (y : Except ε β) :
    failure? (both x y) = (failure? x).or (failure? y) := by
  cases x <;> cases y <;> rfl

/-- Two computations both succeed exactly if each does. -/
theorem both_eq_ok {x : Except ε α} {y : Except ε β} {r : α × β} :
    both x y = .ok r ↔ x = .ok r.1 ∧ y = .ok r.2 := by
  cases x <;> cases y <;> simp [both, bind, Except.bind, pure, Except.pure, Prod.ext_iff]

/-- What is computed for each item of a list fails as its first item that fails does. -/
theorem failure?_mapM (f : α → Except ε β) (as : List α) :
    failure? (as.mapM f) = as.findSome? fun a => failure? (f a) := by
  induction as with
  | nil => rfl
  | cons a as ih =>
    rw [List.mapM_cons, List.findSome?_cons, ← ih]
    cases f a with
    | error e => rfl
    | ok b => cases as.mapM f <;> rfl

/-- …and if no item fails, there is a result for each. -/
theorem mapM_eq_ok {f : α → Except ε β} {as : List α} {bs : List β} :
    as.mapM f = .ok bs ↔ List.Forall₂ (fun a b => f a = .ok b) as bs := by
  induction as generalizing bs with
  | nil => simp [pure, Except.pure, eq_comm]
  | cons a as ih =>
    rw [List.mapM_cons, bind_eq_ok, List.forall₂_cons_left_iff]
    refine exists_congr fun b => ?_
    simp only [bind_eq_ok, ih, pure, Except.pure, Except.ok.injEq, eq_comm (b := bs)]
    simp only [exists_and_left]

end TypeCatalog.Failure
