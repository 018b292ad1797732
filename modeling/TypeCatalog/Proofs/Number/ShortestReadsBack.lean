import Mathlib.Data.Nat.Cast.Order.Field
import TypeCatalog.Number.Shortest
import TypeCatalog.Proofs.Number.Rounding

/-!
# Proofs/Number/ShortestReadsBack — the shortest digits read back

`Binary64.shortestDigits` tries grids of decimals with more and more digits.  What it finds on a
grid lies in the interval of the number (`roundsTo_of_onGrid?`), and on the grid of seventeen digits
it finds something: the nearest decimal there is closer than half the distance to the next number
(`exists_onGrid?`). **So the digits are read as the number they were made from**
(`ofDecimal_shortestDigits`).
-/

namespace TypeCatalog.Number.Binary64

variable {m : ℕ} {e k : ℤ}

/-! ## A number on a grid -/

theorem onGrid_den_pos (m : ℕ) (e k : ℤ) : 0 < (onGrid m e k).2 := by
  rw [onGrid]
  dsimp only
  split <;> split <;> simp [twoTo_pos, tenTo_pos]

/-- A number in units of the grid. -/
theorem onGrid_eq (m : ℕ) (e k : ℤ) :
    ((onGrid m e k).1 : ℚ) / (onGrid m e k).2 = m * 2 ^ e / 10 ^ k := by
  have two : ((if 0 ≤ e then twoTo e.natAbs else 1 : ℕ) : ℚ) /
      (if e < 0 then twoTo e.natAbs else 1 : ℕ) = 2 ^ e := by
    by_cases h : 0 ≤ e
    · rw [if_pos h, if_neg (not_lt.mpr h), Nat.cast_one, div_one, twoTo_natAbs h]
    · rw [if_neg h, if_pos (not_le.mp h), Nat.cast_one, one_div,
        twoTo_natAbs_of_neg (not_le.mp h), inv_inv]
  have ten : ((if k < 0 then tenTo k.natAbs else 1 : ℕ) : ℚ) /
      (if 0 ≤ k then tenTo k.natAbs else 1 : ℕ) = (10 ^ k)⁻¹ := by
    by_cases h : 0 ≤ k
    · rw [if_pos h, if_neg (not_lt.mpr h), Nat.cast_one, one_div, tenTo_natAbs h]
    · rw [if_neg h, if_pos (not_le.mp h), Nat.cast_one, div_one, tenTo_natAbs_of_neg (not_le.mp h)]
  rw [onGrid, div_eq_mul_inv (_ * _), ← two, ← ten]
  push_cast
  field_simp

/-- The parts of a number on the grid are those of its unit, the first of them so many times. -/
theorem onGrid_unit (m : ℕ) (e k : ℤ) :
    onGrid m e k = (m * (onGrid 1 e k).1, (onGrid 1 e k).2) := by
  rw [onGrid, onGrid]
  simp only [one_mul, mul_assoc]

/-- The interval as one pair of comparisons, strict for an odd significand. -/
theorem roundsTo_iff {x : ℚ} : RoundsTo m e x ↔
    if m % 2 = 0 then m * 2 ^ e - lowerGap m e ≤ x ∧ x ≤ m * 2 ^ e + 2 ^ e / 2
    else m * 2 ^ e - lowerGap m e < x ∧ x < m * 2 ^ e + 2 ^ e / 2 := by
  split
  · next h => exact ⟨fun hx => ⟨hx.low, hx.high⟩, fun hx => ⟨hx.1, hx.2, fun _ => h⟩⟩
  · next h =>
    refine ⟨fun hx => ⟨lt_of_le_of_ne hx.low fun heq => h (hx.ends (.inl heq.symm)),
      lt_of_le_of_ne hx.high fun heq => h (hx.ends (.inr heq))⟩, fun hx => ⟨hx.1.le, hx.2.le, ?_⟩⟩
    rintro (rfl | rfl)
    · exact absurd hx.1 (lt_irrefl _)
    · exact absurd hx.2 (lt_irrefl _)

/-- The naturals that are compared stand for the numbers on the line, all in the same unit. -/
theorem roundsBack_iff (hm : 0 < m) (e k : ℤ) (d : ℕ) :
    roundsBack m e (onGrid m e k).1 (onGrid m e k).2 (onGrid 1 e k).1 d = true ↔
      RoundsTo m e (d * 10 ^ k) := by
  have hden : (0 : ℚ) < (onGrid 1 e k).2 := by exact_mod_cast onGrid_den_pos 1 e k
  have hunit := onGrid_eq 1 e k
  rw [onGrid_unit m]
  generalize (onGrid 1 e k).2 = den at *
  generalize (onGrid 1 e k).1 = quarter at *
  have hten : (0 : ℚ) < 10 ^ k := by positivity
  have htwo : (2 : ℚ) ^ e = 4 * quarter * (10 ^ k / (4 * den)) := by
    rw [Nat.cast_one, one_mul, div_eq_div_iff hden.ne' hten.ne'] at hunit
    field_simp
    linarith
  have hd : (d : ℚ) * 10 ^ k = d * den * 4 * (10 ^ k / (4 * den)) := by field_simp
  have hc : (0 : ℚ) < 10 ^ k / (4 * den) := by positivity
  have hgap : lowerGap m e = (if m = twoTo 52 ∧ leastExponent < e then quarter else 2 * quarter : ℕ) *
      (10 ^ k / (4 * den)) := by
    rw [lowerGap, htwo]
    split <;> push_cast <;> ring
  have hle : (if m = twoTo 52 ∧ leastExponent < e then quarter else 2 * quarter) ≤
      m * quarter * 4 := by
    have : quarter ≤ m * quarter := Nat.le_mul_of_pos_left _ hm
    split <;> omega
  rw [roundsTo_iff, hgap, hd, htwo, roundsBack]
  dsimp only
  generalize (if m = twoTo 52 ∧ leastExponent < e then quarter else 2 * quarter) = gap at *
  generalize (10 : ℚ) ^ k / (4 * den) = c at *
  have hlow : (m : ℚ) * (4 * quarter * c) - gap * c = ((m * quarter * 4 - gap : ℕ) : ℚ) * c := by
    rw [Nat.cast_sub hle]
    push_cast
    ring
  have hhigh : (m : ℚ) * (4 * quarter * c) + 4 * quarter * c / 2 =
      ((m * quarter * 4 + 2 * quarter : ℕ) : ℚ) * c := by
    push_cast
    ring
  have hat : (d : ℚ) * den * 4 * c = ((d * den * 4 : ℕ) : ℚ) * c := by push_cast; ring
  rw [hlow, hhigh, hat]
  simp only [mul_le_mul_iff_of_pos_right hc, mul_lt_mul_iff_of_pos_right hc, Nat.cast_le,
    Nat.cast_lt]
  split <;> simp

/-! ## What is found on a grid -/

/-- What is found on a grid reads back. -/
theorem roundsTo_of_onGrid? (hm : 0 < m) {d : ℕ} (h : onGrid? m e k = some d) :
    RoundsTo m e (d * 10 ^ k) := by
  rw [← roundsBack_iff hm]
  rw [onGrid?] at h
  dsimp only at h
  split at h
  · nomatch h
  · next hlow _ =>
    obtain rfl := Option.some.inj h
    exact hlow
  · next _ hhigh =>
    obtain rfl := Option.some.inj h
    exact hhigh
  · next hlow hhigh =>
    split at h
    · exact Option.some.inj h ▸ hlow
    split at h
    · exact Option.some.inj h ▸ hhigh
    · obtain rfl := Option.some.inj h
      obtain heven | hodd := Nat.mod_two_eq_zero_or_one ((onGrid m e k).1 / (onGrid m e k).2)
      · rw [heven, Nat.add_zero]
        exact hlow
      · rw [hodd]
        exact hhigh

/-- If nothing is found on a grid, no neighbour there reads back. -/
theorem not_roundsTo_of_onGrid? (hm : 0 < m) (h : onGrid? m e k = none) :
    ¬ RoundsTo m e (((onGrid m e k).1 / (onGrid m e k).2 : ℕ) * 10 ^ k) ∧
      ¬ RoundsTo m e (((onGrid m e k).1 / (onGrid m e k).2 + 1 : ℕ) * 10 ^ k) := by
  rw [← roundsBack_iff hm, ← roundsBack_iff hm]
  rw [onGrid?] at h
  dsimp only at h
  split at h
  · next hlow hhigh => exact ⟨Bool.eq_false_iff.mp hlow, Bool.eq_false_iff.mp hhigh⟩
  · nomatch h
  · nomatch h
  · split at h
    · nomatch h
    split at h <;> nomatch h

/-- Closer than half the distance to the next number below, a fraction is in the interval. -/
theorem roundsTo_of_close {x : ℚ} (h : |x - m * 2 ^ e| < lowerGap m e) : RoundsTo m e x := by
  have hgap := lowerGap_le m e
  obtain ⟨hlow, hhigh⟩ := abs_lt.mp h
  refine ⟨by linarith, by linarith, ?_⟩
  rintro (heq | heq) <;> linarith

/-- Of the neighbours on a grid one is no further away than half a step. -/
theorem exists_onGrid? (hm : 0 < m) (h : 10 ^ k / 2 < lowerGap m e) :
    ∃ d, onGrid? m e k = some d := by
  have hten : (0 : ℚ) < 10 ^ k := by positivity
  have hden : (0 : ℚ) < (onGrid m e k).2 := by exact_mod_cast onGrid_den_pos m e k
  have hvalue : (m : ℚ) * 2 ^ e = (onGrid m e k).1 / (onGrid m e k).2 * 10 ^ k := by
    rw [onGrid_eq, div_mul_cancel₀ _ hten.ne']
  have hfloor : (((onGrid m e k).1 / (onGrid m e k).2 : ℕ) : ℚ) ≤
      (onGrid m e k).1 / (onGrid m e k).2 := Nat.cast_div_le
  have hceil : ((onGrid m e k).1 : ℚ) / (onGrid m e k).2 <
      ((onGrid m e k).1 / (onGrid m e k).2 : ℕ) + 1 := by
    rw [div_lt_iff₀ hden]
    exact_mod_cast Nat.lt_mul_of_div_lt (Nat.lt_succ_self _) (onGrid_den_pos m e k)
  rw [← Option.isSome_iff_exists, ← Option.ne_none_iff_isSome]
  intro hnone
  obtain ⟨hlow, hhigh⟩ := not_roundsTo_of_onGrid? hm hnone
  generalize (onGrid m e k).1 / (onGrid m e k).2 = floor at *
  generalize ((onGrid m e k).1 : ℚ) / (onGrid m e k).2 = x at *
  obtain hnear | hnear := le_total (x - floor) (1 / 2)
  · refine hlow (roundsTo_of_close ?_)
    rw [hvalue, abs_sub_comm, ← sub_mul, abs_mul, abs_of_pos hten, abs_of_nonneg (by linarith)]
    nlinarith
  · refine hhigh (roundsTo_of_close ?_)
    push_cast
    rw [hvalue, ← sub_mul, abs_mul, abs_of_pos hten, abs_of_nonneg (by linarith)]
    nlinarith

/-! ## Seventeen digits -/

theorem digitCount_pos (n : ℕ) : 0 < digitCount n := Nat.length_toDigits_pos

theorem lt_digitCount (n : ℕ) : n < 10 ^ digitCount n :=
  (Nat.length_toDigits_le_iff (by decide) (digitCount_pos n)).mp le_rfl

theorem digitCount_le {n : ℕ} (hn : 0 < n) : 10 ^ (digitCount n - 1) ≤ n := by
  by_contra hlt
  obtain hone | hmore : digitCount n - 1 = 0 ∨ 0 < digitCount n - 1 := Nat.eq_zero_or_pos _
  · rw [hone, pow_zero] at hlt
    omega
  · have hle : digitCount n ≤ digitCount n - 1 :=
      (Nat.length_toDigits_le_iff (by decide) hmore).mpr (not_le.mp hlt)
    omega

theorem pow_digitCount_le {n : ℕ} (hn : 0 < n) : (10 : ℚ) ^ ((digitCount n : ℤ) - 1) ≤ n := by
  have hcount := digitCount_pos n
  rw [show (digitCount n : ℤ) - 1 = ((digitCount n - 1 : ℕ) : ℤ) by omega, zpow_natCast]
  exact_mod_cast digitCount_le hn

/-- The digits of numerator and denominator tell the exponent of a fraction but for one. -/
theorem pow_digitCounts_le {num den : ℕ} (hnum : 0 < num) (hden : 0 < den) :
    (10 : ℚ) ^ (-((digitCount den : ℤ) - digitCount num) - 1) ≤ num / den := by
  have hden_le : (den : ℚ) ≤ 10 ^ (digitCount den : ℤ) := by
    rw [zpow_natCast]
    exact_mod_cast (lt_digitCount den).le
  rw [le_div_iff₀ (by exact_mod_cast hden)]
  calc (10 : ℚ) ^ (-((digitCount den : ℤ) - digitCount num) - 1) * den
      ≤ 10 ^ (-((digitCount den : ℤ) - digitCount num) - 1) * 10 ^ (digitCount den : ℤ) := by gcongr
    _ = 10 ^ ((digitCount num : ℤ) - 1) := by
      rw [← zpow_add₀ (by norm_num)]
      congr 1
      ring
    _ ≤ num := pow_digitCount_le hnum

/-- The power of ten of the leading exponent is not above the number. -/
theorem leadingExponent_le (hm : 0 < m) (e : ℤ) :
    (10 : ℚ) ^ leadingExponent m e ≤ m * 2 ^ e := by
  have hgrid (k : ℤ) : ((onGrid m e k).1 : ℚ) / (onGrid m e k).2 = m * 2 ^ e / 10 ^ k :=
    onGrid_eq m e k
  have hvalue : (m : ℚ) * 2 ^ e = (onGrid m e 0).1 / (onGrid m e 0).2 := by
    rw [hgrid, zpow_zero, div_one]
  have hden := onGrid_den_pos m e 0
  have hnum : 0 < (onGrid m e 0).1 := by
    have hpos : (0 : ℚ) < (onGrid m e 0).1 / (onGrid m e 0).2 := hvalue ▸ by positivity
    have := (div_pos_iff_of_pos_right (by exact_mod_cast hden)).mp hpos
    exact_mod_cast this
  rw [leadingExponent]
  dsimp only
  split
  · next hle =>
    calc (10 : ℚ) ^ ((digitCount ((onGrid m e 0).1 / (onGrid m e 0).2) : ℤ) - 1)
        ≤ ((onGrid m e 0).1 / (onGrid m e 0).2 : ℕ) := pow_digitCount_le (Nat.div_pos hle hden)
      _ ≤ (onGrid m e 0).1 / (onGrid m e 0).2 := Nat.cast_div_le
      _ = m * 2 ^ e := hvalue.symm
  · split
    · next hle =>
      refine (one_le_div (by positivity)).mp ?_
      rw [← hgrid, one_le_div (by exact_mod_cast onGrid_den_pos m e _)]
      exact_mod_cast hle
    · exact hvalue ▸ pow_digitCounts_le hnum hden

/-- Half a step of the grid of seventeen digits is less than half the distance to the next number:
`2 ^ 53` is below `10 ^ 16`, and `2 ^ 52` even below its half. -/
theorem seventeen_lt_lowerGap (hnumber : IsNumber m e) (hm : 0 < m) :
    (10 : ℚ) ^ (leadingExponent m e - 16) / 2 < lowerGap m e := by
  have hu : (0 : ℚ) < 2 ^ e := by positivity
  have hlead : (10 : ℚ) ^ leadingExponent m e = 10 ^ 16 * 10 ^ (leadingExponent m e - 16) := by
    rw [← zpow_natCast, ← zpow_add₀ (by norm_num)]
    congr 1
    push_cast
    ring
  have hle := leadingExponent_le hm e
  rw [hlead] at hle
  have hmax : (m : ℚ) + 1 ≤ 2 ^ 53 := by exact_mod_cast hnumber.lt
  rw [lowerGap]
  split
  · next h =>
    have hm : (m : ℚ) = 2 ^ 52 := by rw [h.1, cast_twoTo]
    rw [hm] at hle
    linarith
  · nlinarith

/-- What is tried until something is found reads back, if something is found in time. -/
theorem roundsTo_shortestFrom (hm : 0 < m) {lead : ℤ} (tries count : ℕ)
    (h : ∃ d, onGrid? m e (lead - (count + tries : ℕ) + 1) = some d) :
    RoundsTo m e ((shortestFrom m e lead (tries + 1) count).digits *
      10 ^ (shortestFrom m e lead (tries + 1) count).exponent) := by
  induction tries generalizing count with
  | zero =>
    obtain ⟨d, hd⟩ := h
    rw [shortestFrom]
    rw [Nat.add_zero] at hd
    simp only [hd]
    exact roundsTo_of_onGrid? hm hd
  | succ tries ih =>
    rw [shortestFrom]
    split
    · next d hd => exact roundsTo_of_onGrid? hm hd
    · refine ih (count + 1) ?_
      rwa [show count + 1 + tries = count + (tries + 1) by omega]

theorem roundsTo_shortestDigits (hnumber : IsNumber m e) (hm : 0 < m) :
    RoundsTo m e ((shortestDigits m e).digits * 10 ^ (shortestDigits m e).exponent) := by
  rw [shortestDigits, if_neg hm.ne']
  refine roundsTo_shortestFrom hm 16 1 (exists_onGrid? hm ?_)
  rw [show leadingExponent m e - ((1 + 16 : ℕ) : ℤ) + 1 = leadingExponent m e - 16 by
    push_cast; ring]
  exact seventeen_lt_lowerGap hnumber hm

/-- **The shortest digits are read as the number**, wherever the point and the exponent are put. -/
theorem ofDecimal_shortestDigits (hnumber : IsNumber m e) {s : ℕ} {k : ℤ}
    (h : (s : ℚ) * 10 ^ k = (shortestDigits m e).digits * 10 ^ (shortestDigits m e).exponent)
    (negative : Bool) : ofDecimal negative s k = finite negative m e := by
  obtain rfl | hm := Nat.eq_zero_or_pos m
  · have hs : s = 0 := by
      have hten : (10 : ℚ) ^ k ≠ 0 := by positivity
      rw [shortestDigits, if_pos rfl, Nat.cast_zero, zero_mul] at h
      exact_mod_cast (mul_eq_zero.mp h).resolve_right hten
    have he : e = leastExponent := hnumber.full.resolve_left (by decide)
    rw [ofDecimal, if_pos hs, zero, he]
  · exact ofDecimal_eq_of_roundsTo hnumber hm (h ▸ roundsTo_shortestDigits hnumber hm) negative

end TypeCatalog.Number.Binary64
