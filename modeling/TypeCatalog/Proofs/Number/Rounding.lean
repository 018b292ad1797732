import Mathlib.Algebra.Order.Field.Power
import Mathlib.Data.Rat.Cast.Order
import Mathlib.Tactic.FieldSimp
import Mathlib.Tactic.Linarith
import Mathlib.Tactic.NormNum
import Mathlib.Tactic.Positivity
import Mathlib.Tactic.Ring
import TypeCatalog.Number.Binary64

/-!
# Proofs/Number/Rounding — which fractions are rounded to a number

The fractions that are rounded to `m · 2 ^ e` fill an interval around it (`RoundsTo`): half a unit
to both sides, but only a quarter below a power of two, where the numbers lie twice as dense.  The
ends belong to it when `m` is even.  **Every fraction in the interval is rounded to the number**
(`ofRatio_eq_of_roundsTo`), whichever way it is written.
-/

namespace TypeCatalog.Number.Binary64

/-! ## Quotients -/

/-- A quotient within half of a natural is rounded to it; half-way only if it is even. -/
theorem roundedQuotient_eq {num den m : ℕ} (hden : 0 < den) (hlow : 2 * m * den ≤ 2 * num + den)
    (hhigh : 2 * num ≤ 2 * m * den + den)
    (heven : 2 * m * den = 2 * num + den ∨ 2 * num = 2 * m * den + den → m % 2 = 0) :
    roundedQuotient num den = m := by
  have hsplit := Nat.div_add_mod num den
  have hrest := Nat.mod_lt num hden
  rw [roundedQuotient]
  generalize num / den = q at *
  generalize num % den = r at *
  subst hsplit
  have hle : m ≤ q + 1 := by nlinarith
  have hge : q ≤ m := by nlinarith
  obtain rfl | rfl : m = q ∨ m = q + 1 := by omega
  · grind
  · grind

/-! ## Exponents -/

theorem cast_twoTo (n : ℕ) : (twoTo n : ℚ) = 2 ^ n := by simp [twoTo]

theorem cast_tenTo (n : ℕ) : (tenTo n : ℚ) = 10 ^ n := by simp [tenTo]

theorem twoTo_natAbs {e : ℤ} (h : 0 ≤ e) : (twoTo e.natAbs : ℚ) = 2 ^ e := by
  obtain ⟨n, rfl⟩ := Int.eq_ofNat_of_zero_le h
  exact (cast_twoTo n).trans (zpow_natCast _ _).symm

theorem twoTo_natAbs_of_neg {e : ℤ} (h : e < 0) : (twoTo e.natAbs : ℚ) = (2 ^ e)⁻¹ := by
  rw [← Int.natAbs_neg, twoTo_natAbs (by omega), zpow_neg]

theorem tenTo_natAbs {e : ℤ} (h : 0 ≤ e) : (tenTo e.natAbs : ℚ) = 10 ^ e := by
  obtain ⟨n, rfl⟩ := Int.eq_ofNat_of_zero_le h
  exact (cast_tenTo n).trans (zpow_natCast _ _).symm

theorem tenTo_natAbs_of_neg {e : ℤ} (h : e < 0) : (tenTo e.natAbs : ℚ) = (10 ^ e)⁻¹ := by
  rw [← Int.natAbs_neg, tenTo_natAbs (by omega), zpow_neg]

theorem twoTo_pos (n : ℕ) : 0 < twoTo n := Nat.pow_pos (by decide)

theorem tenTo_pos (n : ℕ) : 0 < tenTo n := Nat.pow_pos (by decide)

/-- The exponent at which a fraction has 53 significant bits, or the least one. -/
structure IsExponent (x : ℚ) (e : ℤ) : Prop where
  least_le : leastExponent ≤ e
  lt : x < 2 ^ 53 * 2 ^ e
  le : 2 ^ 52 * 2 ^ e ≤ x ∨ e = leastExponent

theorem zpow_succ_mul (n : ℤ) : (2 : ℚ) ^ 53 * 2 ^ n = 2 ^ 52 * 2 ^ (n + 1) := by
  rw [zpow_add_one₀ two_ne_zero]
  ring

/-- A fraction has no two such exponents. -/
theorem IsExponent.unique {x : ℚ} {e f : ℤ} (he : IsExponent x e) (hf : IsExponent x f) : e = f := by
  have not_lt {e f : ℤ} (he : IsExponent x e) (hf : IsExponent x f) : ¬ e < f := by
    intro hlt
    have hbig : 2 ^ 52 * 2 ^ f ≤ x := hf.le.resolve_right fun h => by
      have := he.least_le
      omega
    have hpow : (2 : ℚ) ^ (e + 1) ≤ 2 ^ f := zpow_le_zpow_right₀ one_le_two (by omega)
    have := he.lt
    rw [zpow_succ_mul] at this
    linarith
  have := not_lt he hf
  have := not_lt hf he
  omega

theorem inUnits_den_pos {num den : ℕ} (hden : 0 < den) (e : ℤ) : 0 < (inUnits num den e).2 := by
  rw [inUnits]
  split
  · exact hden
  · exact Nat.mul_pos hden (twoTo_pos _)

/-- A fraction in units of a power of two. -/
theorem inUnits_eq (num den : ℕ) (e : ℤ) :
    ((inUnits num den e).1 : ℚ) / (inUnits num den e).2 = num / den / 2 ^ e := by
  rw [inUnits]
  split
  · next h =>
    push_cast
    rw [twoTo_natAbs_of_neg h]
    field_simp
  · next h =>
    push_cast
    rw [twoTo_natAbs (by omega)]
    field_simp

/-- The whole part of a quotient is below a bound exactly if the quotient is. -/
theorem div_lt_iff {n d k : ℕ} (hd : 0 < d) : n / d < k ↔ (n : ℚ) / d < k := by
  rw [Nat.div_lt_iff_lt_mul hd, div_lt_iff₀ (by exact_mod_cast hd)]
  exact_mod_cast Iff.rfl

/-- The logarithms of a fraction's parts tell its exponent but for one. -/
theorem bounds_of_log2 {num den : ℕ} (hnum : 0 < num) (hden : 0 < den) :
    (2 : ℚ) ^ 52 * 2 ^ ((num.log2 : ℤ) - den.log2 - 53) ≤ num / den ∧
      (num : ℚ) / den < 2 ^ 53 * 2 ^ ((num.log2 : ℤ) - den.log2 - 53 + 1) := by
  have hnum_ge : (2 : ℚ) ^ num.log2 ≤ num := by exact_mod_cast Nat.log2_self_le hnum.ne'
  have hnum_lt : (num : ℚ) < 2 ^ (num.log2 + 1) := by exact_mod_cast Nat.lt_log2_self
  have hden_ge : (2 : ℚ) ^ den.log2 ≤ den := by exact_mod_cast Nat.log2_self_le hden.ne'
  have hden_lt : (den : ℚ) < 2 ^ (den.log2 + 1) := by exact_mod_cast Nat.lt_log2_self
  have hpos : (0 : ℚ) < den := by exact_mod_cast hden
  have hpow (n : ℕ) (k : ℤ) : (2 : ℚ) ^ n * 2 ^ k = 2 ^ (n + k) := by
    rw [← zpow_natCast, ← zpow_add₀ two_ne_zero]
  constructor
  · rw [le_div_iff₀ hpos, hpow]
    calc (2 : ℚ) ^ ((52 : ℕ) + ((num.log2 : ℤ) - den.log2 - 53)) * den
        ≤ 2 ^ ((52 : ℕ) + ((num.log2 : ℤ) - den.log2 - 53)) * 2 ^ (den.log2 + 1) := by gcongr
      _ = 2 ^ num.log2 := by
        rw [mul_comm, hpow, ← zpow_natCast]
        congr 1
        push_cast
        ring
      _ ≤ num := hnum_ge
  · rw [div_lt_iff₀ hpos, hpow]
    calc (num : ℚ) < 2 ^ (num.log2 + 1) := hnum_lt
      _ = 2 ^ ((53 : ℕ) + ((num.log2 : ℤ) - den.log2 - 53 + 1)) * 2 ^ den.log2 := by
        rw [mul_comm, hpow, ← zpow_natCast]
        congr 1
        push_cast
        ring
      _ ≤ _ := by gcongr

theorem exponentFor_isExponent {num den : ℕ} (hnum : 0 < num) (hden : 0 < den) :
    IsExponent (num / den) (exponentFor num den) := by
  obtain ⟨hge, hlt⟩ := bounds_of_log2 hnum hden
  rw [exponentFor]
  generalize (num.log2 : ℤ) - den.log2 - 53 = low at *
  have hunits : (inUnits num den low).1 / (inUnits num den low).2 < twoTo 53 ↔
      (num : ℚ) / den < 2 ^ 53 * 2 ^ low := by
    rw [div_lt_iff (inUnits_den_pos hden low), inUnits_eq, div_lt_iff₀ (by positivity),
      cast_twoTo]
  have raised {e : ℤ} (h : e < leastExponent) :
      (2 : ℚ) ^ 53 * 2 ^ e ≤ 2 ^ 53 * 2 ^ leastExponent := by
    have := zpow_le_zpow_right₀ (one_le_two (α := ℚ)) h.le
    gcongr
  by_cases hx : (num : ℚ) / den < 2 ^ 53 * 2 ^ low
  · simp only [hunits.mpr hx, if_true]
    split
    · next h => exact ⟨le_rfl, hx.trans_le (raised h), .inr rfl⟩
    · next h => exact ⟨not_lt.mp h, hx, .inl hge⟩
  · simp only [mt hunits.mp hx, if_false]
    split
    · next h => exact ⟨le_rfl, hlt.trans_le (raised h), .inr rfl⟩
    · next h => exact ⟨not_lt.mp h, hlt, .inl (zpow_succ_mul low ▸ not_lt.mp hx)⟩

/-! ## The interval around a number -/

/-- Significand and exponent are those of a number of the format. -/
structure IsNumber (m : ℕ) (e : ℤ) : Prop where
  lt : m < 2 ^ 53
  least_le : leastExponent ≤ e
  le_greatest : e ≤ greatestExponent
  full : 2 ^ 52 ≤ m ∨ e = leastExponent

/-- Half the distance to the next number below. -/
def lowerGap (m : ℕ) (e : ℤ) : ℚ :=
  if m = twoTo 52 ∧ leastExponent < e then 2 ^ e / 4 else 2 ^ e / 2

/-- A fraction is in the interval of the fractions that are rounded to `m · 2 ^ e`. -/
structure RoundsTo (m : ℕ) (e : ℤ) (x : ℚ) : Prop where
  low : m * 2 ^ e - lowerGap m e ≤ x
  high : x ≤ m * 2 ^ e + 2 ^ e / 2
  ends : x = m * 2 ^ e - lowerGap m e ∨ x = m * 2 ^ e + 2 ^ e / 2 → m % 2 = 0

theorem roundedQuotient_eq_of_div {n d m : ℕ} {x : ℚ} (hd : 0 < d) (hx : (n : ℚ) / d = x)
    (hlow : (m : ℚ) - 1 / 2 ≤ x) (hhigh : x ≤ m + 1 / 2)
    (heven : x = m - 1 / 2 ∨ x = m + 1 / 2 → m % 2 = 0) : roundedQuotient n d = m := by
  have hpos : (0 : ℚ) < d := by exact_mod_cast hd
  have hn : (n : ℚ) = x * d := by rw [← hx, div_mul_cancel₀ _ hpos.ne']
  have cast {a b : ℕ} : a ≤ b ↔ (a : ℚ) ≤ b := Nat.cast_le.symm
  refine roundedQuotient_eq hd ?_ ?_ fun h => heven ?_
  · rw [cast]
    push_cast
    rw [hn]
    nlinarith
  · rw [cast]
    push_cast
    rw [hn]
    nlinarith
  · refine h.imp (fun h => ?_) fun h => ?_
    · have : (2 : ℚ) * m * d = 2 * n + d := by exact_mod_cast h
      rw [hn] at this
      exact mul_right_cancel₀ hpos.ne' (by linarith)
    · have : (2 : ℚ) * n = 2 * m * d + d := by exact_mod_cast h
      rw [hn] at this
      exact mul_right_cancel₀ hpos.ne' (by linarith)

section RoundsTo

variable {m num den : ℕ} {e : ℤ} {x : ℚ}

theorem lowerGap_le (m : ℕ) (e : ℤ) : lowerGap m e ≤ 2 ^ e / 2 := by
  have : (0 : ℚ) < 2 ^ e := by positivity
  rw [lowerGap]
  split <;> linarith

theorem RoundsTo.pos (h : RoundsTo m e x) (hm : 0 < m) : 0 < x := by
  have hu : (0 : ℚ) < 2 ^ e := by positivity
  have hone : (1 : ℚ) ≤ m := by exact_mod_cast hm
  have := lowerGap_le m e
  have := h.low
  nlinarith

/-- With enough bits left, the fraction has the exponent of the number. -/
theorem ofRatio_eq_of_same (hnumber : IsNumber m e) (hnum : 0 < num) (hden : 0 < den)
    (h : RoundsTo m e (num / den)) (hbits : 2 ^ 52 * 2 ^ e ≤ (num / den : ℚ) ∨ e = leastExponent)
    (negative : Bool) : ofRatio negative num den = finite negative m e := by
  have hu : (0 : ℚ) < 2 ^ e := by positivity
  have hmax : (m : ℚ) + 1 ≤ 2 ^ 53 := by exact_mod_cast hnumber.lt
  have hexponent : exponentFor num den = e := by
    refine (exponentFor_isExponent hnum hden).unique ⟨hnumber.least_le, ?_, hbits⟩
    have := h.high
    nlinarith
  have hquotient : roundedQuotient (inUnits num den e).1 (inUnits num den e).2 = m := by
    refine roundedQuotient_eq_of_div (inUnits_den_pos hden e) (inUnits_eq num den e) ?_ ?_ ?_
    · rw [le_div_iff₀ hu]
      have := h.low
      have := lowerGap_le m e
      linarith
    · rw [div_le_iff₀ hu]
      have := h.high
      linarith
    · rw [div_eq_iff hu.ne', div_eq_iff hu.ne']
      refine fun hends => h.ends (hends.imp (fun hlow => ?_) fun hhigh => ?_)
      · have := h.low
        have := lowerGap_le m e
        linarith
      · linarith
  have hm : m < twoTo 53 := hnumber.lt
  rw [ofRatio, if_neg hnum.ne', hexponent]
  simp only [hquotient, if_pos hm, if_neg (not_lt.mpr hnumber.le_greatest)]

/-- Just below a power of two the fraction has the exponent below and is rounded up to the power. -/
theorem ofRatio_eq_of_below (hnumber : IsNumber m e) (hnum : 0 < num) (hden : 0 < den)
    (h : RoundsTo m e (num / den)) (hbits : (num / den : ℚ) < 2 ^ 52 * 2 ^ e)
    (hleast : leastExponent < e) (negative : Bool) :
    ofRatio negative num den = finite negative m e := by
  have hu : (0 : ℚ) < 2 ^ e := by positivity
  have hhalf : (2 : ℚ) ^ (e - 1) = 2 ^ e / 2 := by rw [zpow_sub_one₀ two_ne_zero, div_eq_mul_inv]
  obtain rfl : m = twoTo 52 := by
    have hfull : 2 ^ 52 ≤ m := hnumber.full.resolve_right hleast.ne'
    by_contra hne
    have hmore : (2 : ℚ) ^ 52 + 1 ≤ m := by exact_mod_cast lt_of_le_of_ne hfull (Ne.symm hne)
    have := h.low
    have := lowerGap_le m e
    nlinarith
  have hlow : 2 ^ 52 * 2 ^ e - 2 ^ e / 4 ≤ (num / den : ℚ) := by
    have := h.low
    rwa [lowerGap, if_pos ⟨rfl, hleast⟩, cast_twoTo] at this
  have hexponent : exponentFor num den = e - 1 := by
    refine (exponentFor_isExponent hnum hden).unique ⟨by omega, ?_, .inl ?_⟩
    · rw [hhalf]
      linarith
    · rw [hhalf]
      linarith
  have hquotient :
      roundedQuotient (inUnits num den (e - 1)).1 (inUnits num den (e - 1)).2 = twoTo 53 := by
    refine roundedQuotient_eq_of_div (inUnits_den_pos hden _) (inUnits_eq num den _) ?_ ?_
      fun _ => by decide
    · rw [cast_twoTo, hhalf, le_div_iff₀ (by positivity)]
      linarith
    · rw [cast_twoTo, hhalf, div_le_iff₀ (by positivity)]
      linarith
  rw [ofRatio, if_neg hnum.ne', hexponent]
  simp only [hquotient, lt_irrefl, if_false, Int.sub_add_cancel,
    if_neg (not_lt.mpr hnumber.le_greatest)]

/-- **A fraction in the interval of a number is rounded to it.** -/
theorem ofRatio_eq_of_roundsTo (hnumber : IsNumber m e) (hm : 0 < m) (hden : 0 < den)
    (h : RoundsTo m e (num / den)) (negative : Bool) :
    ofRatio negative num den = finite negative m e := by
  have hnum : 0 < num := by
    have hx := h.pos hm
    by_contra hzero
    obtain rfl : num = 0 := by omega
    simp at hx
  by_cases hbits : 2 ^ 52 * 2 ^ e ≤ (num / den : ℚ) ∨ e = leastExponent
  · exact ofRatio_eq_of_same hnumber hnum hden h hbits negative
  · obtain ⟨hbelow, hne⟩ := not_or.mp hbits
    exact ofRatio_eq_of_below hnumber hnum hden h (not_le.mp hbelow)
      (lt_of_le_of_ne hnumber.least_le (Ne.symm hne)) negative

/-! ## Decimals

Decimals far outside the format are answered at once; those in the interval of a number are not. -/

theorem RoundsTo.lt (h : RoundsTo m e x) (hnumber : IsNumber m e) : x < 2 ^ (1024 : ℤ) := by
  have hu : (0 : ℚ) < 2 ^ e := by positivity
  have hmax : (m : ℚ) + 1 ≤ 2 ^ 53 := by exact_mod_cast hnumber.lt
  have hpow : (2 : ℚ) ^ e ≤ 2 ^ greatestExponent := zpow_le_zpow_right₀ one_le_two hnumber.le_greatest
  calc x ≤ m * 2 ^ e + 2 ^ e / 2 := h.high
    _ < 2 ^ 53 * 2 ^ e := by nlinarith
    _ ≤ 2 ^ 53 * 2 ^ greatestExponent := by gcongr
    _ = 2 ^ (1024 : ℤ) := by
      rw [greatestExponent, ← zpow_natCast, ← zpow_add₀ two_ne_zero]
      rfl

theorem RoundsTo.le (h : RoundsTo m e x) (hnumber : IsNumber m e) (hm : 0 < m) :
    2 ^ (-1075 : ℤ) ≤ x := by
  have hone : (1 : ℚ) ≤ m := by exact_mod_cast hm
  have hpow : (2 : ℚ) ^ leastExponent ≤ 2 ^ e := zpow_le_zpow_right₀ one_le_two hnumber.least_le
  have hgap := lowerGap_le m e
  have hlow := h.low
  have hhalf : (2 : ℚ) ^ (-1075 : ℤ) = 2 ^ leastExponent / 2 := by
    rw [leastExponent, div_eq_mul_inv, ← zpow_sub_one₀ two_ne_zero]
    rfl
  rw [hhalf]
  have hu : (0 : ℚ) < 2 ^ e := by positivity
  nlinarith

variable {s : ℕ} {k : ℤ}

theorem exponent_le_of_roundsTo (h : RoundsTo m e (s * 10 ^ k)) (hnumber : IsNumber m e)
    (hs : 0 < s) : k ≤ 400 := by
  by_contra hk
  have hone : (1 : ℚ) ≤ s := by exact_mod_cast hs
  have hpow : (10 : ℚ) ^ (400 : ℤ) ≤ 10 ^ k := zpow_le_zpow_right₀ (by norm_num) (by omega)
  have hbig : (2 : ℚ) ^ (1024 : ℤ) ≤ 10 ^ (400 : ℤ) := by
    calc (2 : ℚ) ^ (1024 : ℤ) ≤ 8 ^ (400 : ℤ) := by
          rw [show (8 : ℚ) = 2 ^ (3 : ℤ) by norm_num, ← zpow_mul]
          exact zpow_le_zpow_right₀ one_le_two (by decide)
      _ ≤ 10 ^ (400 : ℤ) := by
          rw [zpow_ofNat, zpow_ofNat]
          exact pow_le_pow_left₀ (by norm_num) (by norm_num) 400
  have hle : (10 : ℚ) ^ k ≤ s * 10 ^ k := le_mul_of_one_le_left (by positivity) hone
  exact (h.lt hnumber).not_ge (hbig.trans (hpow.trans hle))

theorem log2_of_roundsTo (h : RoundsTo m e (s * 10 ^ k)) (hnumber : IsNumber m e) (hm : 0 < m)
    (hk : k < 0) (hs : 0 < s) : 3 * k.natAbs ≤ s.log2 + 1100 := by
  by_contra hlog
  obtain ⟨n, rfl⟩ : ∃ n : ℕ, k = -n := ⟨k.natAbs, by omega⟩
  rw [Int.natAbs_neg, Int.natAbs_natCast] at hlog
  have hten : (10 : ℚ) ^ (-n : ℤ) ≤ 2 ^ (-(3 * n : ℤ)) := by
    rw [zpow_neg, zpow_neg, zpow_mul, zpow_natCast, zpow_natCast]
    refine inv_anti₀ (by positivity) (pow_le_pow_left₀ (by positivity) (by norm_num) n)
  have hs_lt : (s : ℚ) < 2 ^ (s.log2 + 1 : ℤ) := by
    exact_mod_cast (Nat.lt_log2_self : s < 2 ^ (s.log2 + 1))
  have hx : (s : ℚ) * 10 ^ (-n : ℤ) < 2 ^ (-1075 : ℤ) := by
    calc (s : ℚ) * 10 ^ (-n : ℤ) ≤ s * 2 ^ (-(3 * n : ℤ)) := by gcongr
      _ < 2 ^ (s.log2 + 1 : ℤ) * 2 ^ (-(3 * n : ℤ)) := by gcongr
      _ = 2 ^ ((s.log2 + 1 : ℤ) - 3 * n) := by rw [← zpow_add₀ two_ne_zero, sub_eq_add_neg]
      _ ≤ 2 ^ (-1075 : ℤ) := zpow_le_zpow_right₀ one_le_two (by omega)
  exact absurd (h.le hnumber hm) (not_le.mpr hx)

/-- **A decimal in the interval of a number is rounded to it.** -/
theorem ofDecimal_eq_of_roundsTo (hnumber : IsNumber m e) (hm : 0 < m)
    (h : RoundsTo m e (s * 10 ^ k)) (negative : Bool) :
    ofDecimal negative s k = finite negative m e := by
  have hs : 0 < s := by
    have hx := h.pos hm
    by_contra hzero
    obtain rfl : s = 0 := by omega
    simp at hx
  rw [ofDecimal, if_neg hs.ne']
  by_cases hk : 0 ≤ k
  · rw [if_pos hk, if_neg (not_lt.mpr (exponent_le_of_roundsTo h hnumber hs))]
    refine ofRatio_eq_of_roundsTo hnumber hm Nat.one_pos ?_ negative
    push_cast
    rwa [tenTo_natAbs hk, div_one]
  · have hk := not_le.mp hk
    rw [if_neg (not_le.mpr hk), if_neg (not_lt.mpr (log2_of_roundsTo h hnumber hm hk hs))]
    refine ofRatio_eq_of_roundsTo hnumber hm (tenTo_pos _) ?_ negative
    rwa [tenTo_natAbs_of_neg hk, div_inv_eq_mul]

end RoundsTo

end TypeCatalog.Number.Binary64
