import Mathlib.Data.List.Forall2

/-!
# Proofs/Related — lists related item by item

What `List.Forall₂` says of all items together, in terms of each.
-/

namespace TypeCatalog.Related

variable {α β : Type} {R : α → β → Prop} {as : List α} {bs : List β}

/-- Items at the same position are related. -/
theorem rel_of_getElem? (h : List.Forall₂ R as bs) {i : ℕ} {a : α} {b : β} (ha : as[i]? = some a)
    (hb : bs[i]? = some b) : R a b := by
  induction h generalizing i with
  | nil => cases ha
  | cons hhead _ ih =>
    cases i with
    | zero =>
      cases ha
      cases hb
      exact hhead
    | succ i => exact ih ha hb

/-- Every item is related to something exactly if the list is. -/
theorem exists_forall₂_iff : (∃ bs, List.Forall₂ R as bs) ↔ ∀ a ∈ as, ∃ b, R a b := by
  induction as with
  | nil => exact ⟨nofun, fun _ => ⟨[], .nil⟩⟩
  | cons a as ih =>
    rw [List.forall_mem_cons, ← ih]
    constructor
    · rintro ⟨_, _ | ⟨hb, hbs⟩⟩
      exact ⟨⟨_, hb⟩, _, hbs⟩
    · rintro ⟨⟨b, hb⟩, bs, hbs⟩
      exact ⟨b :: bs, .cons hb hbs⟩

/-- What holds of all that an item can be related to holds of all items of a related list. -/
theorem forall_mem_of_forall₂ {P : β → Prop} (hP : ∀ a ∈ as, ∀ b, R a b → P b)
    (h : List.Forall₂ R as bs) : ∀ b ∈ bs, P b := by
  induction h with
  | nil => exact nofun
  | cons head _ ih =>
    obtain ⟨hhead, hrest⟩ := List.forall_mem_cons.mp hP
    exact List.forall_mem_cons.mpr ⟨hhead _ head, ih hrest⟩

/-- What holds of an item exactly if it holds of all that the item can be related to holds of all
items exactly if it holds of a related list. -/
theorem forall_mem_iff {P : α → Prop} {Q : β → Prop}
    (hPQ : ∀ a ∈ as, ∀ b, R a b → (P a ↔ Q b)) (h : List.Forall₂ R as bs) :
    (∀ a ∈ as, P a) ↔ ∀ b ∈ bs, Q b := by
  induction h with
  | nil => exact iff_of_true nofun nofun
  | cons head _ ih =>
    obtain ⟨hhead, hrest⟩ := List.forall_mem_cons.mp hPQ
    rw [List.forall_mem_cons, List.forall_mem_cons]
    exact and_congr (hhead _ head) (ih hrest)

end TypeCatalog.Related
