import TypeCatalog.Number.Numeral
import TypeCatalog.Proofs.Number.Rounding

/-!
# Proofs/Number/Regular — numbers of the format

All arithmetic ends with `ofRatio`, and what that rounds to is a number of the format
(`isRegular_ofRatio`).  So every operation gives one, and so does **every text that is read as a
number** (`isRegular_float?`).
-/

namespace TypeCatalog.Number

namespace Binary64

/-- A number of the format, or one of the values outside the line of numbers. -/
def IsRegular : Binary64 → Prop
  | .finite _ m e => IsNumber m e
  | _ => True

/-! ## Rounding -/

/-- Rounding takes nothing off the whole part. -/
theorem div_le_roundedQuotient (num den : ℕ) : num / den ≤ roundedQuotient num den := by
  rw [roundedQuotient]
  split
  · exact le_rfl
  · split <;> omega

/-- Rounding adds at most one. -/
theorem roundedQuotient_le (num den : ℕ) : roundedQuotient num den ≤ num / den + 1 := by
  rw [roundedQuotient]
  split
  · omega
  · split <;> omega

theorem isNumber_zero : IsNumber 0 leastExponent where
  lt := by decide
  least_le := le_rfl
  le_greatest := by decide
  full := .inr rfl

/-- **What a fraction is rounded to is a number of the format.** -/
theorem isRegular_ofRatio (negative : Bool) (num : ℕ) {den : ℕ} (hden : 0 < den) :
    IsRegular (ofRatio negative num den) := by
  rw [ofRatio]
  split
  case isTrue => exact isNumber_zero
  next hnum =>
  have hexponent := exponentFor_isExponent (Nat.pos_of_ne_zero hnum) hden
  generalize exponentFor num den = e at *
  have hunits := inUnits_eq num den e
  have hpos : 0 < (inUnits num den e).2 := inUnits_den_pos hden e
  have hu : (0 : ℚ) < 2 ^ e := by positivity
  have hlt : (inUnits num den e).1 / (inUnits num den e).2 < 2 ^ 53 := by
    rw [div_lt_iff hpos, hunits, div_lt_iff₀ hu]
    exact_mod_cast hexponent.lt
  have hfull : 2 ^ 52 ≤ (inUnits num den e).1 / (inUnits num den e).2 ∨ e = leastExponent := by
    refine hexponent.le.imp (fun h => ?_) id
    rw [← not_lt, div_lt_iff hpos, hunits, div_lt_iff₀ hu, not_lt]
    exact_mod_cast h
  have hlow := div_le_roundedQuotient (inUnits num den e).1 (inUnits num den e).2
  have hhigh := roundedQuotient_le (inUnits num den e).1 (inUnits num den e).2
  dsimp only
  generalize roundedQuotient (inUnits num den e).1 (inUnits num den e).2 = m at *
  by_cases hm : m < twoTo 53
  · rw [if_pos hm]
    dsimp only
    split
    · trivial
    · next he =>
      exact ⟨hm, hexponent.least_le, not_lt.mp he, hfull.imp (fun h => h.trans hlow) id⟩
  · rw [if_neg hm]
    dsimp only
    split
    · trivial
    · next he =>
      exact ⟨by decide, hexponent.least_le.trans (by omega), not_lt.mp he, .inl le_rfl⟩

/-! ## Operations -/

/-- A decimal is rounded to a number that fits. -/
theorem isRegular_ofDecimal (negative : Bool) (significand : ℕ) (exponent : ℤ) :
    IsRegular (ofDecimal negative significand exponent) := by
  rw [ofDecimal]
  split
  · exact isNumber_zero
  · split
    · split
      · trivial
      · exact isRegular_ofRatio _ _ Nat.one_pos
    · split
      · exact isNumber_zero
      · exact isRegular_ofRatio _ _ (tenTo_pos _)

theorem IsRegular.neg {x : Binary64} (h : IsRegular x) : IsRegular x.neg := by
  cases x with
  | finite s m e => exact h
  | nan | infinite => trivial

theorem IsRegular.withSign {x : Binary64} (h : IsRegular x) (negative : Bool) :
    IsRegular (if negative then x.neg else x) := by
  split
  · exact h.neg
  · exact h

/-- So is a significand with a power of two. -/
theorem isRegular_ofScaled (negative : Bool) (m : ℕ) (e : ℤ) :
    IsRegular (ofScaled negative m e) := by
  rw [ofScaled]
  split
  · exact isRegular_ofRatio _ _ (twoTo_pos _)
  · exact isRegular_ofRatio _ _ Nat.one_pos

/-- A sum is rounded, whatever its terms are. -/
theorem isRegular_add (x y : Binary64) : IsRegular (x.add y) := by
  cases x with
  | nan => trivial
  | infinite s =>
    cases y with
    | nan | finite => trivial
    | infinite t =>
      rw [add]
      split <;> trivial
  | finite s m e =>
    cases y with
    | nan | infinite => trivial
    | finite t n f =>
      rw [add]
      split
      · exact isNumber_zero
      · exact isRegular_ofScaled _ _ _

end Binary64

/-! ## Texts -/

open Binary64

/-- So is what is read of a text. -/
theorem isRegular_unsignedFloat? {negative : Bool} {text : List Char} {x : Binary64}
    (h : unsignedFloat? negative text = some x) : IsRegular x := by
  rw [unsignedFloat?] at h
  obtain ⟨-, h⟩ := Option.ite_none_left_eq_some.mp h
  obtain ⟨e, -, rfl⟩ := Option.map_eq_some_iff.mp h
  exact isRegular_ofDecimal _ _ _

/-- **A text is read as a number of the format.** -/
theorem isRegular_float? {text : List Char} {x : Binary64} (h : float? text = some x) :
    IsRegular x := by
  rw [float?] at h
  dsimp only at h
  split at h
  · cases h
    trivial
  · cases h
    trivial
  · cases h
    trivial
  · exact isRegular_unsignedFloat? h

end TypeCatalog.Number
