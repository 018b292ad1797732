import TypeCatalog.Proofs.Json.Numerals
import TypeCatalog.Proofs.Number.ShortestReadsBack

/-!
# Proofs/Json/NumberText — numbers are read as they are written

A number is written in places or with an exponent, and either way its text has a whole part, perhaps
a fraction and perhaps a power (`number_float`).  The digits are those of the shortest decimal, so
**the text of a number of the format is read as that number** (`number_text`).
-/

namespace TypeCatalog.Json

open Number Binary64

/-! ## Digits -/

/-- What holds of each character of a text, one after the other, holds of all. -/
theorem forall_mem_of_all {P : Char → Prop} [DecidablePred P] {text : List Char}
    (h : text.all (P ·) = true) : ∀ c ∈ text, P c := by
  simpa only [List.all_eq_true, decide_eq_true_eq] using h

/-- What comes next is no digit. -/
def NoDigit (rest : List Char) : Prop := ∀ c ∈ rest.head?, c.isDigit = false

/-- What comes next does not go on with a number. -/
def EndsValue (rest : List Char) : Prop :=
  ∀ c ∈ rest.head?, c.isDigit = false ∧ c ≠ '.' ∧ c ≠ 'e' ∧ c ≠ 'E'

/-- A gap, a comma and a closing bracket do not. -/
theorem endsValue_of_skipSpace {rest : List Char}
    (h : ∀ c ∈ (skipSpace rest).head?, c ∈ [',', ']', '\x7d']) : EndsValue rest := by
  rintro c hc
  cases rest with
  | nil => cases hc
  | cons d rest =>
    cases hc
    by_cases hgap : isGap c
    · simp only [isGap, Bool.or_eq_true, beq_iff_eq] at hgap
      obtain ((rfl | rfl) | rfl) | rfl := hgap <;> decide
    · rw [skipSpace, List.dropWhile_cons_of_neg hgap] at h
      have hc := h c rfl
      simp only [List.mem_cons, List.not_mem_nil, or_false] at hc
      obtain rfl | rfl | rfl := hc <;> decide

theorem spanAsciiDigits_append {digits rest : List Char} (h : ∀ c ∈ digits, c.isDigit)
    (hrest : NoDigit rest) : spanAsciiDigits (digits ++ rest) = (digits, rest) := by
  induction digits with
  | nil =>
    cases rest with
    | nil => rfl
    | cons c rest => simp [spanAsciiDigits, hrest c rfl]
  | cons c digits ih =>
    obtain ⟨hc, hdigits⟩ := List.forall_mem_cons.mp h
    obtain ⟨htake, hdrop⟩ := Prod.mk.inj (ih hdigits)
    simp [spanAsciiDigits, hc, htake, hdrop]

theorem ofAsciiDigits_append (a b : List Char) :
    ofAsciiDigits (a ++ b) = ofAsciiDigits a * 10 ^ b.length + ofAsciiDigits b := by
  induction b using List.reverseRecOn with
  | nil => simp [ofAsciiDigits]
  | append_singleton b c ih =>
    have snoc (l : List Char) : ofAsciiDigits (l ++ [c]) =
        ofAsciiDigits l * 10 + (c.toNat - '0'.toNat) := by
      rw [ofAsciiDigits, List.foldl_append]
      rfl
    rw [← List.append_assoc, snoc, snoc, ih, List.length_append, List.length_singleton, pow_succ]
    ring

theorem ofAsciiDigits_zeros (n : ℕ) : ofAsciiDigits (List.replicate n '0') = 0 := by
  induction n with
  | zero => rfl
  | succ n ih =>
    rw [List.replicate_succ', ofAsciiDigits_append, ih]
    rfl

theorem ofAsciiDigits_toDigits (n : ℕ) : ofAsciiDigits (Nat.toDigits 10 n) = n := by
  have h := Nat.ofDigitChars_toDigits (b := 10) (n := n) (by decide) le_rfl
  rw [Nat.ofDigitChars] at h
  simpa only [ofAsciiDigits, mul_comm] using h

theorem isDigit_toDigits (n : ℕ) : ∀ c ∈ Nat.toDigits 10 n, c.isDigit :=
  fun _ hc => Nat.isDigit_of_mem_toDigits (by decide) le_rfl hc

theorem isDigit_zeros (n : ℕ) : ∀ c ∈ List.replicate n '0', c.isDigit := by
  intro c hc
  rw [List.eq_of_mem_replicate hc]
  rfl

/-- Only zero has a zero in front. -/
theorem head_toDigits {n : ℕ} (hn : 0 < n) : (Nat.toDigits 10 n).head? ≠ some '0' := by
  induction n using Nat.strongRecOn with
  | ind n ih =>
    have small : ∀ d < 10, 0 < d → [Nat.digitChar d].head? ≠ some '0' := by decide
    rw [Nat.toDigits_eq_if (by decide)]
    split
    · next h => exact small n h hn
    · next h =>
      have hne : Nat.toDigits 10 (n / 10) ≠ [] := List.length_pos_iff.mp Nat.length_toDigits_pos
      rw [List.head?_append_of_ne_nil _ hne]
      exact ih (n / 10) (by omega) (by omega)

/-! ## The parts of a number -/

/-- A whole part: digits, with no zero in front of others. -/
structure IsWhole (whole : List Char) : Prop where
  ne_nil : whole ≠ []
  digits : ∀ c ∈ whole, c.isDigit
  head : whole = ['0'] ∨ whole.head? ≠ some '0'

theorem wholePart?_append {whole rest : List Char} (h : IsWhole whole) (hrest : NoDigit rest) :
    wholePart? (whole ++ rest) = some (whole, rest) := by
  obtain rfl | hhead := h.head
  · rfl
  · have hspan := spanAsciiDigits_append h.digits hrest
    obtain ⟨c, cs, rfl⟩ := List.exists_cons_of_ne_nil h.ne_nil
    rw [wholePart?]
    · rw [hspan]
      rfl
    · rintro rest' heq
      obtain ⟨rfl, -⟩ := List.cons.inj heq
      exact hhead rfl

theorem isWhole_zero : IsWhole ['0'] where
  ne_nil := List.cons_ne_nil _ _
  digits := List.forall_mem_singleton.mpr rfl
  head := .inl rfl

/-- A fraction after its point, if there is one. -/
def fractionText : List Char → List Char
  | [] => []
  | digits => '.' :: digits

theorem fractionText_of_ne_nil {digits : List Char} (h : digits ≠ []) :
    fractionText digits = '.' :: digits := by
  cases digits with
  | nil => exact absurd rfl h
  | cons d ds => rfl

theorem fractionPart?_append {digits rest : List Char} (hne : digits ≠ [])
    (h : ∀ c ∈ digits, c.isDigit) (hrest : NoDigit rest) :
    fractionPart? (fractionText digits ++ rest) = some (digits, rest) := by
  rw [fractionText_of_ne_nil hne, List.cons_append, fractionPart?,
    spanAsciiDigits_append h hrest]
  obtain ⟨c, cs, rfl⟩ := List.exists_cons_of_ne_nil hne
  rfl

theorem fractionPart?_eq_none {rest : List Char} (h : ∀ c ∈ rest.head?, c ≠ '.') :
    fractionPart? rest = none := by
  cases rest with
  | nil => rfl
  | cons c rest =>
    rw [fractionPart?]
    rintro text heq
    exact h c rfl (List.cons.inj heq).1

theorem exponentPart?_eq_none {rest : List Char} (h : ∀ c ∈ rest.head?, c ≠ 'e' ∧ c ≠ 'E') :
    exponentPart? rest = none := by
  cases rest with
  | nil => rfl
  | cons c rest => rw [exponentPart?, if_neg (not_or.mpr (h c rfl))]

/-- The sign of a negative number. -/
def signText (negative : Bool) : List Char := if negative then ['-'] else []

/-- What is read of a number, once its sign and its whole part are. -/
theorem number_of_whole {body whole rest : List Char} (hbody : ∀ c ∈ body.head?, c ≠ '-')
    (hwhole : wholePart? body = some (whole, rest)) (negative : Bool) :
    number (signText negative ++ body) =
      let fraction := fractionPart? rest
      let power := exponentPart? (fraction.elim rest (·.2))
      if fraction = none ∧ power = none then
        if digitLimit < whole.length then .error .oversizedInteger
        else .ok (.int (if negative then -(ofAsciiDigits whole : Int) else ofAsciiDigits whole), rest)
      else
        let digits := fraction.elim [] (·.1)
        .ok (.float (ofDecimal negative (ofAsciiDigits (whole ++ digits))
          (power.elim 0 (·.1) - (digits.length : Int))), power.elim (fraction.elim rest (·.2)) (·.2)) := by
  rw [number.eq_def]
  split
  next _ negative' body' heq =>
  obtain ⟨rfl, rfl⟩ : negative' = negative ∧ body' = body := by
    cases negative with
    | true =>
      obtain ⟨rfl, rfl⟩ := Prod.mk.inj heq
      exact ⟨rfl, rfl⟩
    | false =>
      simp only [signText, Bool.false_eq_true, if_false, List.nil_append] at heq
      split at heq
      · exact absurd rfl (hbody '-' rfl)
      · obtain ⟨rfl, rfl⟩ := Prod.mk.inj heq
        exact ⟨rfl, rfl⟩
  rw [hwhole]
  dsimp only
  split
  · next hfraction hpower => exact (if_pos (And.intro hfraction hpower)).symm
  · next hne => rw [if_neg fun h => hne h.1 h.2]

theorem IsWhole.head_ne_sign {whole rest : List Char} (h : IsWhole whole) :
    ∀ c ∈ (whole ++ rest).head?, c ≠ '-' := by
  obtain ⟨d, ds, rfl⟩ := List.exists_cons_of_ne_nil h.ne_nil
  rintro c ⟨⟩ rfl
  exact absurd (h.digits '-' List.mem_cons_self) (by decide)

/-- A number that is no integer: a whole part, a fraction, and a power of ten, one of the last two
at least. -/
theorem number_float {whole fraction powerText rest : List Char} {power : Option Int}
    (hwhole : IsWhole whole) (hfraction : ∀ c ∈ fraction, c.isDigit)
    (hpower : exponentPart? (powerText ++ rest) = power.map fun p => (p, rest))
    (hhead : ∀ c ∈ (powerText ++ rest).head?, c.isDigit = false ∧ c ≠ '.')
    (hempty : power = none → powerText = []) (hsome : fraction ≠ [] ∨ power ≠ none)
    (negative : Bool) :
    number (signText negative ++ (whole ++ (fractionText fraction ++ (powerText ++ rest)))) =
      .ok (.float (ofDecimal negative (ofAsciiDigits (whole ++ fraction))
        (power.getD 0 - (fraction.length : Int))), rest) := by
  have hnodigit : NoDigit (powerText ++ rest) := fun c hc => (hhead c hc).1
  have hafter : (power.map fun p => (p, rest)).elim (powerText ++ rest) (·.2) = rest := by
    cases power with
    | none => rw [hempty rfl]; rfl
    | some p => rfl
  have hexponent : (power.map fun p => (p, rest)).elim 0 (·.1) = power.getD 0 := by
    cases power <;> rfl
  cases fraction with
  | nil =>
    have hpart := fractionPart?_eq_none fun c hc => (hhead c hc).2
    have hne : ¬ (True ∧ (power.map fun p => (p, rest)) = none) := fun h =>
      hsome.resolve_left (not_not.mpr rfl) (Option.map_eq_none_iff.mp h.2)
    rw [fractionText, List.nil_append,
      number_of_whole hwhole.head_ne_sign (wholePart?_append hwhole hnodigit)]
    simp only [hpart, Option.elim_none, hpower, if_neg hne, hafter, hexponent]
  | cons d ds =>
    have hpart := fractionPart?_append (List.cons_ne_nil d ds) hfraction hnodigit
    have hdot : NoDigit (fractionText (d :: ds) ++ (powerText ++ rest)) := by
      rintro c ⟨⟩
      rfl
    rw [number_of_whole hwhole.head_ne_sign (wholePart?_append hwhole hdot)]
    simp only [hpart, Option.elim_some, hpower, reduceCtorEq, false_and, if_false, hafter, hexponent]

/-! ## The digits of a decimal -/

/-- Digits and an exponent have the value of a decimal. -/
structure IsLayoutOf (digits : List Char) (exponent : Int) (d : Decimal) : Prop where
  whole : IsWhole digits
  zero : digits = ['0'] → exponent = 0
  value : (ofAsciiDigits digits : ℚ) * 10 ^ exponent = d.digits * 10 ^ d.exponent

/-- What is dropped from the end of digits are zeros. -/
theorem exists_zeros (all : List Char) : ∃ z,
    all = (all.reverse.dropWhile (· == '0')).reverse ++ List.replicate z '0' := by
  refine ⟨(all.reverse.takeWhile (· == '0')).length, ?_⟩
  have hzeros : all.reverse.takeWhile (· == '0') =
      List.replicate (all.reverse.takeWhile (· == '0')).length '0' :=
    List.eq_replicate_of_mem fun c hc => by simpa using List.mem_takeWhile_imp hc
  conv_lhs => rw [← all.reverse_reverse,
    ← List.takeWhile_append_dropWhile (p := (· == '0')) (l := all.reverse), List.reverse_append,
    hzeros, List.reverse_replicate]

theorem isLayoutOf_zero {d : Decimal} (h : d.digits = 0) : IsLayoutOf ['0'] 0 d where
  whole := isWhole_zero
  zero := fun _ => rfl
  value := by
    rw [h, Nat.cast_zero, zero_mul]
    exact zero_mul _

theorem isLayoutOf_significantDigits (d : Decimal) :
    IsLayoutOf d.significantDigits.1 d.significantDigits.2 d := by
  obtain ⟨z, hz⟩ := exists_zeros (Nat.toDigits 10 d.digits)
  have hvalue := ofAsciiDigits_toDigits d.digits
  have hdigits := isDigit_toDigits d.digits
  have hhead := @head_toDigits d.digits
  rw [Decimal.significantDigits]
  generalize hkept : ((Nat.toDigits 10 d.digits).reverse.dropWhile (· == '0')).reverse = kept at *
  rw [hz, ofAsciiDigits_append, ofAsciiDigits_zeros, Nat.add_zero, List.length_replicate] at hvalue
  rw [hz] at hdigits hhead
  cases kept with
  | nil => exact isLayoutOf_zero (hvalue ▸ Nat.zero_mul _)
  | cons c cs =>
    have hpos : 0 < d.digits := by
      refine Nat.pos_of_ne_zero fun hzero => ?_
      rw [hzero] at hkept
      exact absurd hkept nofun
    have hne : (c :: cs).head? ≠ some '0' := hhead hpos
    have hlength : (Nat.toDigits 10 d.digits).length - (c :: cs).length = z := by
      rw [hz, List.length_append, List.length_replicate, Nat.add_sub_cancel_left]
    simp only [List.isEmpty_cons, Bool.false_eq_true, if_false, hlength]
    refine ⟨⟨List.cons_ne_nil _ _, (List.forall_mem_append.mp hdigits).1, .inr hne⟩, fun h => ?_, ?_⟩
    · exact absurd (h ▸ rfl) hne
    · rw [← hvalue, zpow_add₀ (by norm_num), zpow_natCast]
      push_cast
      ring

/-! ## Numbers in places and with exponents -/

/-- The parts of the text of a number, with the value of a decimal. -/
structure HasParts (text : List Char) (d : Decimal) (whole fraction powerText : List Char)
    (power : Option Int) : Prop where
  text_eq : text = whole ++ (fractionText fraction ++ powerText)
  isWhole : IsWhole whole
  isDigit : ∀ c ∈ fraction, c.isDigit
  not_both : fraction ≠ [] ∨ power ≠ none
  empty : power = none → powerText = []
  /-- The power is read, whatever comes after it, unless that goes on with digits. -/
  reads : ∀ p, power = some p → powerText.head? = some 'e' ∧ ∀ rest, NoDigit rest →
    exponentPart? (powerText ++ rest) = some (p, rest)
  marks : ∀ c ∈ powerText, c.isDigit ∨ c ∈ ['e', '+', '-']
  value : (ofAsciiDigits (whole ++ fraction) : ℚ) * 10 ^ (power.getD 0 - (fraction.length : Int)) =
    d.digits * 10 ^ d.exponent

section Layout

variable {digits : List Char} {exponent : Int} {d : Decimal}

theorem IsWhole.append {whole digits : List Char} (h : IsWhole whole) (hne : whole ≠ ['0'])
    (hdigits : ∀ c ∈ digits, c.isDigit) : IsWhole (whole ++ digits) where
  ne_nil := List.append_ne_nil_of_left_ne_nil h.ne_nil _
  digits := List.forall_mem_append.mpr ⟨h.digits, hdigits⟩
  head := .inr (by
    rw [List.head?_append_of_ne_nil _ h.ne_nil]
    exact h.head.resolve_left hne)

theorem IsWhole.take {whole : List Char} (h : IsWhole whole) {n : ℕ} (hn : 0 < n) :
    IsWhole (whole.take n) := by
  obtain ⟨c, cs, rfl⟩ := List.exists_cons_of_ne_nil h.ne_nil
  obtain ⟨n, rfl⟩ := Nat.exists_eq_add_one.mpr hn
  refine ⟨List.cons_ne_nil _ _, fun x hx => h.digits x (List.mem_of_mem_take hx), ?_⟩
  refine h.head.imp (fun hzero => ?_) id
  obtain ⟨rfl, rfl⟩ := List.cons.inj hzero
  simp

/-- A fraction in places. -/
theorem HasParts.inPlaces {text whole fraction : List Char} (htext : text = whole ++ '.' :: fraction)
    (hwhole : IsWhole whole) (hfraction : ∀ c ∈ fraction, c.isDigit) (hne : fraction ≠ [])
    (hvalue : (ofAsciiDigits (whole ++ fraction) : ℚ) * 10 ^ (-(fraction.length : Int)) =
      d.digits * 10 ^ d.exponent) : HasParts text d whole fraction [] none where
  text_eq := by rw [htext, fractionText_of_ne_nil hne, List.append_nil]
  isWhole := hwhole
  isDigit := hfraction
  not_both := .inl hne
  empty _ := rfl
  reads := nofun
  marks := nofun
  value := by rwa [Option.getD_none, zero_sub]

theorem exists_parts_inPlaces (h : IsLayoutOf digits exponent d) :
    ∃ whole fraction, HasParts (DecimalStyle.inPlaces digits exponent) d whole fraction [] none := by
  have hten : (10 : ℚ) ≠ 0 := by norm_num
  have hlength : 0 < digits.length := List.length_pos_iff.mpr h.whole.ne_nil
  rw [DecimalStyle.inPlaces]
  dsimp only
  split
  · next hexponent =>
    have hwhole : IsWhole (digits ++ List.replicate exponent.natAbs '0') := by
      by_cases hzero : digits = ['0']
      · rw [h.zero hzero, hzero]
        exact isWhole_zero
      · exact h.whole.append hzero (isDigit_zeros _)
    refine ⟨_, ['0'], .inPlaces rfl hwhole isWhole_zero.digits (List.cons_ne_nil _ _) ?_⟩
    obtain ⟨n, rfl⟩ := Int.eq_ofNat_of_zero_le hexponent
    have hzero : ofAsciiDigits ['0'] = 0 := rfl
    rw [← h.value, ofAsciiDigits_append, ofAsciiDigits_append, ofAsciiDigits_zeros, hzero,
      List.length_replicate, List.length_singleton, Int.natAbs_natCast, zpow_natCast]
    push_cast
    rw [zpow_neg, zpow_one]
    field_simp
    ring
  · next hexponent =>
    split
    · next hcount =>
      have hpoint : (digits.drop (digits.length + exponent).natAbs).length = -exponent := by
        rw [List.length_drop]
        omega
      refine ⟨_, _, .inPlaces rfl (h.whole.take (by omega))
        (fun c hc => h.whole.digits c (List.mem_of_mem_drop hc)) ?_ ?_⟩
      · exact List.length_pos_iff.mp (by omega)
      · rw [List.take_append_drop, hpoint, neg_neg, h.value]
    · next hcount =>
      have hpoint : (List.replicate (digits.length + exponent).natAbs '0' ++ digits).length =
          -exponent := by
        rw [List.length_append, List.length_replicate]
        omega
      have hzero : ofAsciiDigits ['0'] = 0 := rfl
      refine ⟨['0'], List.replicate (digits.length + exponent).natAbs '0' ++ digits,
        .inPlaces rfl isWhole_zero ?_ ?_ ?_⟩
      · exact List.forall_mem_append.mpr ⟨isDigit_zeros _, h.whole.digits⟩
      · exact List.append_ne_nil_of_right_ne_nil _ h.whole.ne_nil
      · rw [hpoint, neg_neg, ofAsciiDigits_append, ofAsciiDigits_append, ofAsciiDigits_zeros, hzero,
          Nat.zero_mul, Nat.zero_add, Nat.zero_mul, Nat.zero_add, h.value]

/-- A power of ten, as it is written after a number. -/
def powerText (style : DecimalStyle) (lead : Int) : List Char :=
  let power := Nat.toDigits 10 lead.natAbs
  'e' :: (if lead < 0 then '-' else '+') ::
    (List.replicate (style.exponentWidth - power.length) '0' ++ power)

theorem exponentPart?_powerText (style : DecimalStyle) (lead : Int) {rest : List Char}
    (hrest : NoDigit rest) : exponentPart? (powerText style lead ++ rest) = some (lead, rest) := by
  have hdigits : ∀ c ∈ List.replicate (style.exponentWidth -
      (Nat.toDigits 10 lead.natAbs).length) '0' ++ Nat.toDigits 10 lead.natAbs, c.isDigit :=
    List.forall_mem_append.mpr ⟨isDigit_zeros _, isDigit_toDigits _⟩
  have hne : List.replicate (style.exponentWidth - (Nat.toDigits 10 lead.natAbs).length) '0' ++
      Nat.toDigits 10 lead.natAbs ≠ [] :=
    List.append_ne_nil_of_right_ne_nil _ (List.length_pos_iff.mp Nat.length_toDigits_pos)
  have hvalue : ofAsciiDigits (List.replicate (style.exponentWidth -
      (Nat.toDigits 10 lead.natAbs).length) '0' ++ Nat.toDigits 10 lead.natAbs) = lead.natAbs := by
    rw [ofAsciiDigits_append, ofAsciiDigits_zeros, Nat.zero_mul, Nat.zero_add,
      ofAsciiDigits_toDigits]
  rw [powerText]
  generalize List.replicate (style.exponentWidth - (Nat.toDigits 10 lead.natAbs).length) '0' ++
    Nat.toDigits 10 lead.natAbs = digits at *
  have hempty : digits.isEmpty = false := List.isEmpty_eq_false_iff.mpr hne
  by_cases hlead : lead < 0
  · simp only [exponentPart?, if_pos hlead, splitSign, List.cons_append, true_or, if_true,
      spanAsciiDigits_append hdigits hrest, hempty, hvalue, Bool.false_eq_true, if_false]
    congr 2
    omega
  · simp only [exponentPart?, if_neg hlead, splitSign, List.cons_append, true_or, if_true,
      spanAsciiDigits_append hdigits hrest, hempty, hvalue, Bool.false_eq_true, if_false]
    congr 2
    omega

theorem hasParts_withExponent (h : IsLayoutOf digits exponent d) (style : DecimalStyle) :
    HasParts (style.withExponent digits (exponent + digits.length - 1)) d (digits.take 1)
      (digits.drop 1) (powerText style (exponent + digits.length - 1))
      (some (exponent + digits.length - 1)) where
  text_eq := by
    rw [DecimalStyle.withExponent, powerText]
    cases hdrop : digits.drop 1 <;> simp [fractionText]
  isWhole := h.whole.take Nat.one_pos
  isDigit := fun c hc => h.whole.digits c (List.mem_of_mem_drop hc)
  not_both := .inr nofun
  empty := nofun
  reads := by
    rintro p ⟨⟩
    exact ⟨rfl, fun rest hrest => exponentPart?_powerText style _ hrest⟩
  marks := by
    have hdigits : ∀ n k, ∀ c ∈ List.replicate k '0' ++ Nat.toDigits 10 n, c.isDigit := fun n k =>
      List.forall_mem_append.mpr ⟨isDigit_zeros k, isDigit_toDigits n⟩
    rw [powerText]
    refine List.forall_mem_cons.mpr ⟨by decide, List.forall_mem_cons.mpr ⟨?_, fun c hc => ?_⟩⟩
    · split <;> decide
    · exact .inl (hdigits _ _ c hc)
  value := by
    have hlength : 0 < digits.length := List.length_pos_iff.mpr h.whole.ne_nil
    have hpower : exponent + digits.length - 1 - (digits.drop 1).length = exponent := by
      rw [List.length_drop]
      omega
    rw [List.take_append_drop, Option.getD_some, hpower, h.value]

/-- The text of a number that has parts is read as the number, if its shortest digits are there. -/
theorem HasParts.number_eq {text whole fraction powerText rest : List Char} {power : Option Int}
    {m : ℕ} {e : ℤ} (h : HasParts text (shortestDigits m e) whole fraction powerText power)
    (hnumber : IsNumber m e) (hrest : EndsValue rest) (negative : Bool) :
    number (signText negative ++ (text ++ rest)) = .ok (.float (.finite negative m e), rest) := by
  have hnodigit : NoDigit rest := fun c hc => (hrest c hc).1
  have hpower : exponentPart? (powerText ++ rest) = power.map fun p => (p, rest) := by
    cases hp : power with
    | none =>
      rw [h.empty hp]
      exact exponentPart?_eq_none fun c hc => (hrest c hc).2.2
    | some p => exact (h.reads p hp).2 rest hnodigit
  have hhead : ∀ c ∈ (powerText ++ rest).head?, c.isDigit = false ∧ c ≠ '.' := by
    intro c hc
    cases hp : power with
    | none =>
      rw [h.empty hp] at hc
      exact ⟨(hrest c hc).1, (hrest c hc).2.1⟩
    | some p =>
      have he := (h.reads p hp).1
      rw [List.head?_append, he] at hc
      cases hc
      exact ⟨rfl, by decide⟩
  have htext : text ++ rest = whole ++ (fractionText fraction ++ (powerText ++ rest)) := by
    rw [h.text_eq]
    simp only [List.append_assoc]
  rw [htext, number_float h.isWhole h.isDigit hpower hhead h.empty h.not_both,
    ofDecimal_shortestDigits hnumber h.value]

end Layout

/-- The text of a number is its sign with the parts of its shortest digits. -/
theorem exists_parts (style : DecimalStyle) (negative : Bool) (m : ℕ) (e : ℤ) :
    ∃ text whole fraction powerText power,
      (style.text (.finite negative m e)).toList = signText negative ++ text ∧
      HasParts text (shortestDigits m e) whole fraction powerText power := by
  have hlayout := isLayoutOf_significantDigits (shortestDigits m e)
  have hsign : (if negative then "-" else "").toList = signText negative := by
    cases negative <;> rfl
  rw [DecimalStyle.text]
  dsimp only
  rw [String.toList_append, hsign, String.toList_ofList]
  split
  · obtain ⟨whole, fraction, hparts⟩ := exists_parts_inPlaces hlayout
    exact ⟨_, _, _, _, _, rfl, hparts⟩
  · exact ⟨_, _, _, _, _, rfl, hasParts_withExponent hlayout style⟩

/-- **A number of the format is read from its text**, in each style. -/
theorem number_text (style : DecimalStyle) {m : ℕ} {e : ℤ} (hnumber : IsNumber m e)
    {rest : List Char} (hrest : EndsValue rest) (negative : Bool) :
    number ((style.text (.finite negative m e)).toList ++ rest) =
      .ok (.float (.finite negative m e), rest) := by
  obtain ⟨text, whole, fraction, powerText, power, htext, hparts⟩ := exists_parts style negative m e
  rw [htext, List.append_assoc]
  exact hparts.number_eq hnumber hrest negative

/-! ## Integers -/

theorem isWhole_toDigits (n : ℕ) : IsWhole (Nat.toDigits 10 n) where
  ne_nil := List.length_pos_iff.mp Nat.length_toDigits_pos
  digits := isDigit_toDigits n
  head := by
    obtain rfl | hn := Nat.eq_zero_or_pos n
    · exact .inl rfl
    · exact .inr (head_toDigits hn)

theorem toList_toString (n : Int) :
    (toString n).toList = signText (n < 0) ++ Nat.toDigits 10 n.natAbs := by
  cases n with
  | ofNat n =>
    change (toString n).toList = _
    rw [Nat.toString_eq_ofList_toDigits, String.toList_ofList]
    rfl
  | negSucc n =>
    change ("-" ++ toString (n + 1)).toList = _
    have hminus : "-".toList = ['-'] := rfl
    rw [String.toList_append, hminus, Nat.toString_eq_ofList_toDigits, String.toList_ofList,
      decide_eq_true (Int.negSucc_lt_zero n)]
    rfl

/-- **An integer is read from its text**, if it has no more digits than are read. -/
theorem number_integer {n : Int} (h : (Nat.toDigits 10 n.natAbs).length ≤ digitLimit)
    {rest : List Char} (hrest : EndsValue rest) :
    number ((toString n).toList ++ rest) = .ok (.int n, rest) := by
  have hwhole := isWhole_toDigits n.natAbs
  have hpart := fractionPart?_eq_none fun c hc => (hrest c hc).2.1
  have hpower := exponentPart?_eq_none fun c hc => (hrest c hc).2.2
  have hvalue : (if n < 0 then -(n.natAbs : Int) else n.natAbs) = n := by
    split <;> omega
  rw [toList_toString, List.append_assoc, number_of_whole hwhole.head_ne_sign
    (wholePart?_append hwhole fun c hc => (hrest c hc).1)]
  simp only [hpart, Option.elim_none, hpower, and_self, if_true, if_neg (not_lt.mpr h),
    ofAsciiDigits_toDigits, decide_eq_true_eq, hvalue]

end TypeCatalog.Json
