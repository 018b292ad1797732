import Mathlib.Data.List.Infix

/-!
# Proofs/Ensures — what holds of a computation however it ends

`Ensures P E x`: of what `x` returns `P` holds, and if it fails, `E` holds of the error.  With a
state, `Keeps I E P act` says this of every run that starts in a state where `I` holds, and that `I`
holds after it again.  Both are closed under sequence, so they follow the program text.
-/

namespace TypeCatalog

variable {σ ε α β : Type} {P P' : α → Prop} {Q : β → Prop} {E E' : ε → Prop} {I : σ → Prop}

/-- Something holds of what a computation returns, or of the error that it fails with. -/
def Ensures (P : α → Prop) (E : ε → Prop) : Except ε α → Prop
  | .ok a => P a
  | .error e => E e

namespace Ensures

variable {x : Except ε α}

/-- What is ensured may be weakened, of the result and of the error. -/
theorem mono (h : Ensures P E x) (hP : ∀ a, P a → P' a) (hE : ∀ e, E e → E' e) :
    Ensures P' E' x := by
  cases x with
  | ok a => exact hP a h
  | error e => exact hE e h

/-- A function of the result carries over what holds of it; an error stays the same. -/
theorem map {f : α → β} (h : Ensures P E x) (hf : ∀ a, P a → Q (f a)) :
    Ensures Q E (x.map f) := by
  cases x with
  | ok a => exact hf a h
  | error e => exact h

/-- **The rule of sequence**: the rest is judged under what is ensured of the first part. -/
theorem bind {f : α → Except ε β} (h : Ensures P E x) (hf : ∀ a, P a → Ensures Q E (f a)) :
    Ensures Q E (x >>= f) := by
  cases x with
  | ok a => exact hf a h
  | error e => exact h

theorem ite {c : Prop} [Decidable c] {y : Except ε α} (hx : Ensures P E x) (hy : Ensures P E y) :
    Ensures P E (if c then x else y) := by
  split
  · exact hx
  · exact hy

/-- A computation returns something or fails, and what is ensured holds of that. -/
theorem ok_or_error (h : Ensures P E x) : (∃ a, x = .ok a ∧ P a) ∨ ∃ e, x = .error e ∧ E e := by
  cases x with
  | ok a => exact .inl ⟨a, rfl, h⟩
  | error e => exact .inr ⟨e, rfl, h⟩

/-- What is ensured of errors holds of the one that a computation fails with. -/
theorem of_error {e : ε} (h : Ensures P E x) (hx : x = .error e) : E e := by
  subst hx
  exact h

/-- What is ensured of results holds of the one that a computation returns. -/
theorem of_ok {a : α} (h : Ensures P E x) (hx : x = .ok a) : P a := by
  subst hx
  exact h

/-- What is ensured of each item is ensured of all results of a pass over a list, or of the first
error. -/
theorem mapM {f : α → Except ε β} {as : List α} (h : ∀ a ∈ as, Ensures Q E (f a)) :
    Ensures (fun bs => ∀ b ∈ bs, Q b) E (as.mapM f) := by
  induction as with
  | nil => exact fun _ hb => nomatch hb
  | cons a as ih =>
    obtain ⟨ha, has⟩ := List.forall_mem_cons.mp h
    rw [List.mapM_cons]
    refine ha.bind fun b hb => (ih has).bind fun bs hbs => ?_
    exact List.forall_mem_cons.mpr ⟨hb, hbs⟩

end Ensures

/-- A computation with a state keeps an invariant, and ensures this of what it returns and of what
it fails with. -/
def Keeps (I : σ → Prop) (E : ε → Prop) (P : α → Prop) (act : StateT σ (Except ε) α) : Prop :=
  ∀ s, I s → Ensures (fun r => P r.1 ∧ I r.2) E (act.run s)

namespace Keeps

variable {act other : StateT σ (Except ε) α}

/-- A result without an effect keeps every invariant. -/
theorem pure {a : α} (h : P a) : Keeps I E P (pure a) := fun _ hs => ⟨h, hs⟩

theorem throw {e : ε} (h : E e) : Keeps I E P (throw e) := fun _ _ => h

/-- The rule of sequence, with the invariant handed on. -/
theorem bind {f : α → StateT σ (Except ε) β} (h : Keeps I E P act)
    (hf : ∀ a, P a → Keeps I E Q (f a)) : Keeps I E Q (act >>= f) := by
  intro s hs
  rw [StateT.run_bind]
  exact (h s hs).bind fun r hr => hf r.1 hr.1 r.2 hr.2

/-- The state that is read satisfies the invariant. -/
theorem get : Keeps I E I (MonadState.get : StateT σ (Except ε) σ) := fun _ hs => ⟨hs, hs⟩

/-- A change of state keeps an invariant if the function behind it does. -/
theorem modifyGet {f : σ → α × σ} (hf : ∀ s, I s → P (f s).1 ∧ I (f s).2) :
    Keeps I E P (modifyGet f : StateT σ (Except ε) α) := fun s hs => hf s hs

theorem modify {f : σ → σ} (hf : ∀ s, I s → I (f s)) :
    Keeps I E (fun _ => True) (modify f : StateT σ (Except ε) PUnit) :=
  fun s hs => ⟨trivial, hf s hs⟩

theorem ite {c : Prop} [Decidable c] (h : Keeps I E P act) (hother : Keeps I E P other) :
    Keeps I E P (if c then act else other) := by
  split
  · exact h
  · exact hother

/-- What comes after an action that is taken in one case only. -/
theorem firstOf {c : Prop} [Decidable c] {act : StateT σ (Except ε) Unit}
    {next : Unit → StateT σ (Except ε) β} (h : c → Keeps I E (fun _ => True) act)
    (hnext : Keeps I E Q (next ())) : Keeps I E Q (if c then act >>= next else next ()) := by
  split
  · next hc => exact (h hc).bind fun _ _ => hnext
  · exact hnext

/-- What comes after an action that is taken in one case only, which keeps the invariant anyway. -/
theorem first {c : Prop} [Decidable c] {act : StateT σ (Except ε) Unit}
    {next : Unit → StateT σ (Except ε) β} (h : Keeps I E (fun _ => True) act)
    (hnext : Keeps I E Q (next ())) : Keeps I E Q (if c then act >>= next else next ()) :=
  .firstOf (fun _ => h) hnext

/-- An action on each item of a list keeps what it keeps on one. -/
theorem forM {act : α → StateT σ (Except ε) PUnit}
    (h : ∀ a, Keeps I E (fun _ => True) (act a)) (as : List α) :
    Keeps I E (fun _ => True) (as.forM act) := by
  induction as with
  | nil => exact .pure trivial
  | cons a as ih => exact (h a).bind fun _ _ => ih

theorem mono (h : Keeps I E P act) (hP : ∀ a, P a → P' a) : Keeps I E P' act :=
  fun s hs => (h s hs).mono (fun r hr => ⟨hP r.1 hr.1, hr.2⟩) fun _ he => he

end Keeps

end TypeCatalog
