import TypeCatalog.Number.Numeral
import TypeCatalog.Proofs.Json.NumberText

/-!
# Proofs/Json/DecimalText — what JSON reads as a number, others read as the same

`Number.integer?` and `Number.float?` read more than the texts that numbers are written as, the
digits of other scripts among them.  On the ASCII digits of a whole part (`integer?_whole`) and on
the parts of a number's text (`HasParts.float?_eq`) they read what a reader of JSON reads.
-/

namespace TypeCatalog.Json

open Number Text

/-! ## Characters -/

/-- What holds of ten characters holds of all digits. -/
theorem forall_isDigit {P : Char → Prop} [DecidablePred P]
    (h : "0123456789".toList.all (P ·) = true) {c : Char} (hc : c.isDigit) : P c := by
  refine forall_mem_of_all h c ?_
  obtain ⟨hlow, hhigh⟩ : 48 ≤ c.toNat ∧ c.toNat ≤ 57 := by
    simpa [Char.isDigit, UInt32.le_iff_toNat_le] using hc
  have hdigits : ∀ n ≤ 57, 48 ≤ n → Char.ofNat n ∈ "0123456789".toList := by decide
  simpa using hdigits c.toNat hhigh hlow

theorem isDecimalDigit_of_isDigit {c : Char} (h : c.isDigit) : isDecimalDigit c :=
  forall_isDigit (P := (isDecimalDigit · = true)) (by decide) h

theorem digitValue?_of_isDigit {c : Char} (h : c.isDigit) :
    digitValue? c = some (c.toNat - '0'.toNat) :=
  forall_isDigit (P := fun c => digitValue? c = some (c.toNat - '0'.toNat)) (by decide) h

theorem digitUpTo36?_of_isDigit {c : Char} (h : c.isDigit) :
    digitUpTo36? c = some (c.toNat - '0'.toNat) :=
  forall_isDigit (P := fun c => digitUpTo36? c = some (c.toNat - '0'.toNat)) (by decide) h

theorem digit_lt_ten {c : Char} (h : c.isDigit) : c.toNat - '0'.toNat < 10 :=
  forall_isDigit (P := fun c => c.toNat - '0'.toNat < 10) (by decide) h

/-- A character of the text of a number. -/
def IsMark (c : Char) : Prop := c.isDigit ∨ c ∈ ['.', 'e', '+', '-']

/-- What holds of all the characters that numbers are written with is checked one by one. -/
theorem forall_isMark {P : Char → Prop} [DecidablePred P]
    (h : "0123456789.e+-".toList.all (P ·) = true) {c : Char} (hc : IsMark c) : P c := by
  obtain ⟨hdigits, hmarks⟩ : "0123456789".toList.all (P ·) = true ∧
      ['.', 'e', '+', '-'].all (P ·) = true :=
    Bool.and_eq_true_iff.mp (List.all_append.symm.trans h)
  obtain hdigit | hmark := hc
  · exact forall_isDigit hdigits hdigit
  · exact forall_mem_of_all hmarks c hmark

theorem isSpace_of_isMark {c : Char} (h : IsMark c) : isSpace c = false :=
  forall_isMark (P := (isSpace · = false)) (by decide) h

theorem toLower_of_isMark {c : Char} (h : IsMark c) : c.toLower = c :=
  forall_isMark (P := fun c => c.toLower = c) (by decide) h

theorem map_toLower_of_isMark {text : List Char} (h : ∀ c ∈ text, IsMark c) :
    text.map Char.toLower = text := by
  conv_rhs => rw [← text.map_id]
  exact List.map_congr_left fun c hc => toLower_of_isMark (h c hc)

/-- A text of such characters has no blanks around it. -/
theorem trimmed_of_isMark {text : List Char} (h : ∀ c ∈ text, IsMark c) : trimmed text = text := by
  have hall : ∀ {cs : List Char}, (∀ c ∈ cs, IsMark c) → cs.dropWhile isSpace = cs := by
    rintro (_ | ⟨c, cs⟩) hcs
    · rfl
    · rw [List.dropWhile_cons_of_neg]
      exact Bool.not_eq_true _ ▸ isSpace_of_isMark (hcs c List.mem_cons_self)
  rw [trimmed, hall h, hall fun c hc => h c (List.mem_reverse.mp hc), List.reverse_reverse]

/-- A digit is no sign. -/
theorem splitSign_of_isDigit {text : List Char} (h : ∀ c ∈ text.head?, c.isDigit) :
    splitSign text = (false, text) := by
  cases text with
  | nil => rfl
  | cons c cs =>
    have hc : c.isDigit := h c rfl
    rw [splitSign]
    · rintro rest heq
      obtain ⟨rfl, -⟩ := List.cons.inj heq
      exact absurd hc (by decide)
    · rintro rest heq
      obtain ⟨rfl, -⟩ := List.cons.inj heq
      exact absurd hc (by decide)

/-- A sign is taken off that was put before a digit. -/
theorem splitSign_signText (negative : Bool) {text : List Char} (h : ∀ c ∈ text.head?, c.isDigit) :
    splitSign (signText negative ++ text) = (negative, text) := by
  cases negative with
  | true => rfl
  | false => exact splitSign_of_isDigit h

theorem IsWhole.head_isDigit {whole : List Char} (h : IsWhole whole) (rest : List Char) :
    ∀ c ∈ (whole ++ rest).head?, c.isDigit := by
  obtain ⟨d, ds, rfl⟩ := List.exists_cons_of_ne_nil h.ne_nil
  rintro c ⟨⟩
  exact h.digits d List.mem_cons_self

/-! ## Integers -/

/-- Digits have the value that they have in a JSON text. -/
theorem digitsValue?_digits {digits : List Char} (h : ∀ c ∈ digits, c.isDigit) (value : ℕ) :
    digitsValue? 10 digits value =
      some (digits.foldl (fun n c => n * 10 + (c.toNat - '0'.toNat)) value) := by
  induction digits generalizing value with
  | nil => rfl
  | cons c cs ih =>
    obtain ⟨hc, hcs⟩ := List.forall_mem_cons.mp h
    rw [digitsValue?, digitUpTo36?_of_isDigit hc]
    dsimp only
    rw [if_pos (digit_lt_ten hc), ih hcs]
    rfl

/-- In base ten no mark stands before the digits. -/
theorem withoutMark_ten (digits : List Char) : withoutMark 10 digits = digits := by
  rw [withoutMark.eq_def]
  split
  · exact if_neg Bool.false_ne_true
  · rfl

/-- **A whole part is read as its value**, if it is short enough to be read. -/
theorem integer?_whole {whole : List Char} (h : IsWhole whole) :
    integer? 10 whole = if digitLimit < whole.length then none else some (ofAsciiDigits whole : ℤ) := by
  have hhead := h.head_isDigit []
  rw [List.append_nil] at hhead
  rw [integer?, trimmed_of_isMark fun c hc => .inl (h.digits c hc), splitSign_of_isDigit hhead]
  simp only [withoutMark_ten, List.isEmpty_eq_false_iff.mpr h.ne_nil, Bool.false_or, beq_self_eq_true,
    Bool.true_and, decide_eq_true_eq, digitsValue?_digits h.digits]
  rfl

/-- A whole part is the text of its value. -/
theorem toDigits_ofAsciiDigits {whole : List Char} (h : IsWhole whole) :
    Nat.toDigits 10 (ofAsciiDigits whole) = whole := by
  induction whole using List.reverseRecOn with
  | nil => exact absurd rfl h.ne_nil
  | append_singleton init c ih =>
    obtain ⟨hinit, hc⟩ := List.forall_mem_append.mp h.digits
    have hdigit := hc c (List.mem_singleton.mpr rfl)
    have hchar : Nat.digitChar (c.toNat - '0'.toNat) = c :=
      forall_isDigit (P := fun c => Nat.digitChar (c.toNat - '0'.toNat) = c) (by decide) hdigit
    have hlt := digit_lt_ten hdigit
    have hvalue : ofAsciiDigits (init ++ [c]) = ofAsciiDigits init * 10 + (c.toNat - '0'.toNat) := by
      rw [ofAsciiDigits_append]
      simp [ofAsciiDigits]
    rw [hvalue, Nat.toDigits_eq_if (by decide)]
    cases init with
    | nil =>
      rw [if_pos (by simpa [ofAsciiDigits] using hlt)]
      simpa [ofAsciiDigits] using hchar
    | cons d ds =>
      have hhead : (d :: ds).head? ≠ some '0' := by
        refine h.head.elim (fun hzero => ?_) id
        exact absurd (congrArg List.length hzero) (by simp)
      have hwhole : IsWhole (d :: ds) := ⟨List.cons_ne_nil _ _, hinit, .inr hhead⟩
      have hpos : 0 < ofAsciiDigits (d :: ds) := by
        refine Nat.pos_of_ne_zero fun hzero => hhead ?_
        rw [← ih hwhole, hzero]
        rfl
      rw [if_neg (by omega), Nat.add_comm, Nat.add_mul_div_right _ _ (by decide),
        Nat.add_mul_mod_self_right, Nat.div_eq_of_lt hlt, Nat.mod_eq_of_lt hlt, Nat.zero_add,
        ih hwhole, hchar]

/-! ## Numbers with a fraction or an exponent -/

/-- The digits at the start of a text, up to what is no digit. -/
theorem spanDigits_append {digits rest : List Char} (h : ∀ c ∈ digits, c.isDigit)
    (hrest : ∀ c ∈ rest.head?, isDecimalDigit c = false) :
    spanDigits (digits ++ rest) = (digits.map fun c => c.toNat - '0'.toNat, rest) := by
  have htake : (digits ++ rest).takeWhile isDecimalDigit = digits := by
    rw [List.takeWhile_append_of_pos fun c hc => isDecimalDigit_of_isDigit (h c hc)]
    cases rest with
    | nil => exact List.append_nil _
    | cons c rest => rw [List.takeWhile_cons_of_neg (by simp [hrest c rfl]), List.append_nil]
  have hvalues : digits.filterMap digitValue? = digits.map fun c => c.toNat - '0'.toNat := by
    rw [← List.filterMap_eq_map]
    exact List.filterMap_congr fun c hc => digitValue?_of_isDigit (h c hc)
  rw [spanDigits, htake, hvalues, List.drop_left]

theorem ofDigits_map (digits : List Char) :
    ofDigits (digits.map fun c => c.toNat - '0'.toNat) = ofAsciiDigits digits :=
  List.foldl_map

/-- An exponent that ends the text is read as in JSON. -/
theorem exponent?_of_exponentPart? {text : List Char} {p : ℤ}
    (h : exponentPart? text = some (p, [])) : exponent? text = some p := by
  cases text with
  | nil => cases h
  | cons c text =>
    rw [exponentPart?] at h
    obtain ⟨hmark, h⟩ := Option.ite_none_right_eq_some.mp h
    rw [exponent?, if_pos hmark]
    cases hsign : splitSign text with
    | mk negative body =>
    rw [hsign] at h
    dsimp only at h ⊢
    obtain ⟨hne, h⟩ := Option.ite_none_left_eq_some.mp h
    obtain ⟨rfl, hrest⟩ := Prod.mk.inj (Option.some.inj h)
    have hdigits : ∀ c ∈ body, c.isDigit := List.dropWhile_eq_nil_iff.mp hrest
    have hspan : spanDigits (body ++ []) = _ := spanDigits_append hdigits fun c hc => by cases hc
    have htake : (spanAsciiDigits body).1 = body := List.takeWhile_eq_self_iff.mpr hdigits
    rw [List.append_nil] at hspan
    rw [htake] at hne ⊢
    rw [hspan]
    simp only [ofDigits_map, List.isEmpty_map, hne, List.isEmpty_nil, Bool.not_true,
      Bool.or_self, Bool.false_eq_true, if_false]

section Parts

variable {text whole fraction powerText : List Char} {d : Decimal} {power : Option ℤ}
  (h : HasParts text d whole fraction powerText power)
include h

/-- A number's text is made of these characters. -/
theorem HasParts.isMark : ∀ c ∈ text, IsMark c := by
  have hfraction : ∀ c ∈ fractionText fraction, IsMark c := by
    cases hf : fraction with
    | nil => nofun
    | cons d ds =>
      rw [← hf, fractionText_of_ne_nil (hf ▸ List.cons_ne_nil d ds)]
      exact List.forall_mem_cons.mpr ⟨.inr List.mem_cons_self, fun c hc => .inl (h.isDigit c hc)⟩
  rw [h.text_eq]
  refine List.forall_mem_append.mpr ⟨fun c hc => .inl (h.isWhole.digits c hc), ?_⟩
  refine List.forall_mem_append.mpr ⟨hfraction, fun c hc => (h.marks c hc).imp id ?_⟩
  exact List.mem_cons_of_mem _

theorem HasParts.head_isDigit : ∀ c ∈ text.head?, c.isDigit := by
  rw [h.text_eq]
  exact h.isWhole.head_isDigit _

/-- A power starts with its mark. -/
theorem HasParts.head_powerText : ∀ c ∈ powerText.head?, c = 'e' := by
  intro c hc
  cases hpower : power with
  | none => simp [h.empty hpower] at hc
  | some p => exact Option.some.inj (((h.reads p hpower).1.symm.trans hc).symm)

/-- The exponent is read from its own text. -/
theorem HasParts.exponent?_eq : exponent? powerText = some (power.getD 0) := by
  cases hpower : power with
  | none =>
    rw [h.empty hpower]
    rfl
  | some p =>
    have hread := (h.reads p hpower).2 [] fun c hc => by cases hc
    rw [List.append_nil] at hread
    exact exponent?_of_exponentPart? hread

/-- The parts of a number without its sign are read as they are in a JSON text. -/
theorem HasParts.unsignedFloat?_eq (negative : Bool) : unsignedFloat? negative text =
    some (.ofDecimal negative (ofAsciiDigits (whole ++ fraction))
      (power.getD 0 - (fraction.length : ℤ))) := by
  have hpower : ∀ c ∈ powerText.head?, isDecimalDigit c = false := fun c hc => by
    rw [h.head_powerText c hc]
    decide
  have hempty : (whole.map fun c => c.toNat - '0'.toNat).isEmpty = false := by
    rw [List.isEmpty_map]
    exact List.isEmpty_eq_false_iff.mpr h.isWhole.ne_nil
  have hread := h.exponent?_eq
  rw [unsignedFloat?, h.text_eq]
  cases fraction with
  | nil =>
    rw [fractionText, List.nil_append, spanDigits_append h.isWhole.digits hpower]
    dsimp only
    split
    · exact absurd (h.head_powerText '.' rfl) (by decide)
    · simp only [hempty, Bool.false_and, Bool.false_eq_true, if_false, hread, Option.map_some,
        List.append_nil, ofDigits_map, List.length_nil]
  | cons d ds =>
    have hfraction := spanDigits_append h.isDigit hpower
    have hpoint : ∀ c ∈ ('.' :: (d :: ds ++ powerText)).head?, isDecimalDigit c = false := by
      rintro c ⟨⟩
      decide
    rw [fractionText_of_ne_nil (List.cons_ne_nil d ds), List.cons_append,
      spanDigits_append h.isWhole.digits hpoint]
    simp only [hfraction, hempty, Bool.false_and, Bool.false_eq_true, if_false, hread,
      Option.map_some, ← List.map_append, ofDigits_map, List.length_map]

/-- **The text of a number is read as in JSON.** -/
theorem HasParts.float?_eq : float? text =
    some (.ofDecimal false (ofAsciiDigits (whole ++ fraction))
      (power.getD 0 - (fraction.length : ℤ))) := by
  have hword : ∀ word ∈ ["inf", "infinity", "nan"], String.ofList text ≠ word := by
    rintro word hword rfl
    have hall : ∀ word ∈ ["inf", "infinity", "nan"],
        word.toList.head?.map Char.isDigit = some false := by decide
    have hhead := hall _ hword
    rw [String.toList_ofList] at hhead
    obtain ⟨c, hc, hfalse⟩ := Option.map_eq_some_iff.mp hhead
    exact Bool.false_ne_true (hfalse.symm.trans (h.head_isDigit c hc))
  rw [float?, trimmed_of_isMark h.isMark, splitSign_of_isDigit h.head_isDigit]
  dsimp only
  rw [map_toLower_of_isMark h.isMark]
  split
  · next heq => exact absurd heq (hword _ (by decide))
  · next heq => exact absurd heq (hword _ (by decide))
  · next heq => exact absurd heq (hword _ (by decide))
  · exact h.unsignedFloat?_eq false

end Parts

end TypeCatalog.Json
