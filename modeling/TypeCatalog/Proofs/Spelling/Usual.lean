import TypeCatalog.Proofs.Json.DecimalText
import TypeCatalog.Proofs.Number.Regular
import TypeCatalog.Proofs.Spelling.Json
import TypeCatalog.Proofs.Spelling.Yaml

/-!
# Proofs/Spelling/Usual — tokens that are spelled as their values are written

A value has one text as a representation, a token may have many spellings.  Both readers read the
usual spelling of a truth value, an integer or a floating-point number as just the value of that
text, and no floating-point number that they read lies outside the format (`ReadsUsually`).  So
**the representation of a value is its token exactly if that is a usual spelling**
(`ReadsUsually.representation_eq_iff`).
-/

namespace TypeCatalog

open Number Binary64 Json Document

/-- The integer of a sign and a value. -/
def signed (negative : Bool) (n : ℕ) : ℤ := if negative then -(n : ℤ) else n

/-- The characters of an integer in its usual spelling: no plus sign, no zero in front, and zero
without a sign. -/
structure IsDecimalText (text : List Char) (negative : Bool) (whole : List Char) : Prop where
  text_eq : text = signText negative ++ whole
  isWhole : Json.IsWhole whole
  not_zero : negative → whole ≠ ['0']

/-- A token is a usual spelling of a kind of values: a truth value in small letters, an integer in
decimal digits, or the text that some number of the format has. -/
inductive IsUsual (token : String) : Value → Prop
  | bool (b : Bool) : token ∈ ["true", "false"] → IsUsual token (.bool b)
  | int (n : ℤ) {negative : Bool} {whole : List Char} :
      IsDecimalText token.toList negative whole → IsUsual token (.int n)
  | float (y : Binary64) {x : Binary64} : x.IsRegular → token = DecimalStyle.plain.text x →
      IsUsual token (.float y)

/-- A token is read so that a usual spelling gives the value that it is the text of; and it is not
read as a string. -/
structure ReadsUsually (token : String) (v : Value) : Prop where
  not_string : ∀ t, v ≠ .string t
  bool : ∀ b, v = .bool b → token ∈ ["true", "false"] → token = if b then "true" else "false"
  int : ∀ n, v = .int n → ∀ negative whole, IsDecimalText token.toList negative whole →
    n = signed negative (ofAsciiDigits whole)
  float : ∀ y, v = .float y → ∀ x : Binary64, x.IsRegular →
    token = DecimalStyle.plain.text x → y = x
  regular : ∀ y, v = .float y → y.IsRegular

/-! ## Texts of values -/

theorem integerText?_eq_some {n : ℤ} {t : String} (h : integerText? n = some t) :
    t.toList = signText (n < 0) ++ Nat.toDigits 10 n.natAbs := by
  rw [integerText?] at h
  obtain ⟨-, h⟩ := Option.ite_none_left_eq_some.mp h
  rw [← Option.some.inj h, String.toList_ofList]
  by_cases hn : n < 0 <;> simp [hn, signText]

theorem isDecimalText_of_integerText? {n : ℤ} {t : String} (h : integerText? n = some t) :
    IsDecimalText t.toList (n < 0) (Nat.toDigits 10 n.natAbs) where
  text_eq := integerText?_eq_some h
  isWhole := isWhole_toDigits _
  not_zero hn hzero := by
    have hvalue := ofAsciiDigits_toDigits n.natAbs
    rw [hzero] at hvalue
    have : n.natAbs = 0 := hvalue.symm
    have : n < 0 := of_decide_eq_true hn
    omega

theorem IsDecimalText.eq_integerText {text whole : List Char} {negative : Bool} {t : String}
    (h : IsDecimalText text negative whole)
    (ht : integerText? (signed negative (ofAsciiDigits whole)) = some t) : t.toList = text := by
  have hdigits := toDigits_ofAsciiDigits h.isWhole
  have habs : (signed negative (ofAsciiDigits whole)).natAbs = ofAsciiDigits whole := by
    rw [signed]
    split <;> omega
  have hsign : decide (signed negative (ofAsciiDigits whole) < 0) = negative := by
    cases negative with
    | false => exact decide_eq_false (by rw [signed, if_neg Bool.false_ne_true]; omega)
    | true =>
      have hne : ofAsciiDigits whole ≠ 0 := fun hzero => by
        rw [hzero] at hdigits
        exact h.not_zero rfl hdigits.symm
      exact decide_eq_true (by rw [signed, if_pos rfl]; omega)
  rw [integerText?_eq_some ht, habs, hsign, hdigits, h.text_eq]

/-- **The representation of a value is its token exactly if that is a usual spelling.** -/
theorem ReadsUsually.representation_eq_iff {token s : String} {v : Value} (h : ReadsUsually token v)
    (hs : IsRepresentation v s) : s = token ↔ IsUsual token v := by
  constructor
  · rintro rfl
    cases hs with
    | string => exact absurd rfl (h.not_string _)
    | bool b => exact .bool b (by cases b <;> decide)
    | int ht => exact .int _ (isDecimalText_of_integerText? ht)
    | float x => exact .float x (h.regular x rfl) rfl
  · rintro (⟨b, hb⟩ | ⟨n, hn⟩ | ⟨y, hx, htoken⟩)
    · cases hs
      exact (h.bool b rfl hb).symm
    · cases hs with
      | int ht =>
        rw [h.int n rfl _ _ hn] at ht
        exact String.toList_inj.mp (hn.eq_integerText ht)
    · cases hs
      rw [h.float y rfl _ hx htoken, htoken]

/-! ## Tokens of JSON -/

namespace Json

/-- A number is an integer, or a floating-point number of the format. -/
theorem ensures_number (text : List Char) :
    Ensures (fun r => (∃ n, r.1 = .int n) ∨ ∃ y : Binary64, r.1 = .float y ∧ y.IsRegular)
      (fun _ => True) (number text) := by
  rw [number.eq_def]
  split
  next negative body _ =>
  cases wholePart? body with
  | none => trivial
  | some found =>
    dsimp only
    split
    · split
      · trivial
      · exact .inl ⟨_, rfl⟩
    · exact .inr ⟨_, rfl, isRegular_ofDecimal _ _ _⟩

/-- The text of a number is none of the words for numbers. -/
theorem text_ne_word (x : Binary64) :
    DecimalStyle.plain.text x ∉ ["NaN", "Infinity", "-Infinity"] := by
  cases x with
  | nan => decide
  | infinite negative => cases negative <;> decide
  | finite negative m e =>
    obtain ⟨text, whole, fraction, powerText, power, htext, hparts⟩ :=
      exists_parts .plain negative m e
    obtain ⟨c, cs, rfl⟩ : ∃ c cs, text = c :: cs := by
      obtain ⟨c, cs, hwhole⟩ := List.exists_cons_of_ne_nil hparts.isWhole.ne_nil
      exact ⟨c, _, by rw [hparts.text_eq, hwhole]; rfl⟩
    have hdigit : c.isDigit := hparts.head_isDigit c rfl
    intro hmem
    have hwords : ∀ word ∈ ["NaN", "Infinity", "-Infinity"],
        (splitSign word.toList).2.head?.map Char.isDigit = some false := by decide
    have hhead := hwords _ hmem
    rw [htext, splitSign_signText negative hparts.head_isDigit] at hhead
    exact Bool.false_ne_true ((Option.some.inj hhead).symm.trans hdigit)

/-- Words and numbers are read so. -/
theorem IsAtom.readsUsually {token : String} {v : Value} (h : IsAtom token v) :
    ReadsUsually token v := by
  cases h with
  | word hword =>
    have hfloat : ∀ y, v = .float y → token ∈ ["NaN", "Infinity", "-Infinity"] ∧ y.IsRegular := by
      rintro y rfl
      simp only [words, List.mem_cons, Prod.mk.injEq, List.not_mem_nil, or_false, reduceCtorEq,
        and_false, false_or, Value.float.injEq] at hword
      obtain ⟨rfl, rfl⟩ | ⟨rfl, rfl⟩ | ⟨rfl, rfl⟩ := hword <;> exact ⟨by decide, trivial⟩
    refine ⟨?_, ?_, ?_, fun y hy x _ htoken => ?_, fun y hy => (hfloat y hy).2⟩
    · rintro t rfl
      simp [words] at hword
    · rintro b rfl -
      simp only [words, List.mem_cons, Prod.mk.injEq, List.not_mem_nil, or_false, reduceCtorEq,
        and_false, false_or, Value.bool.injEq] at hword
      obtain ⟨rfl, rfl⟩ | ⟨rfl, rfl⟩ := hword <;> rfl
    · rintro n rfl
      simp [words] at hword
    · exact absurd (htoken ▸ (hfloat y hy).1) (text_ne_word x)
  | @number rest hends hnumber =>
    have hkind := (ensures_number _).of_ok hnumber
    refine ⟨?_, ?_, ?_, ?_, ?_⟩
    · rintro t rfl
      obtain ⟨n, hn⟩ | ⟨y, hy, -⟩ := hkind
      · cases hn
      · cases hy
    · rintro b rfl
      obtain ⟨n, hn⟩ | ⟨y, hy, -⟩ := hkind
      · cases hn
      · cases hy
    · rintro n rfl negative whole htoken
      have hpart := fractionPart?_eq_none fun c hc => (hends c hc).2.1
      have hpower := exponentPart?_eq_none fun c hc => (hends c hc).2.2
      have hwhole := wholePart?_append htoken.isWhole fun c hc => (hends c hc).1
      rw [htoken.text_eq, List.append_assoc,
        number_of_whole htoken.isWhole.head_ne_sign hwhole] at hnumber
      simp only [hpart, Option.elim_none, hpower, and_self, if_true] at hnumber
      split at hnumber
      · cases hnumber
      · obtain ⟨hn, -⟩ := Prod.mk.inj (Except.ok.inj hnumber)
        exact (Value.int.inj hn).symm
    · rintro y rfl x hx rfl
      cases x with
      | nan => nomatch hnumber
      | infinite negative => cases negative <;> nomatch hnumber
      | finite negative m e =>
        rw [number_text .plain hx hends negative] at hnumber
        obtain ⟨hy, -⟩ := Prod.mk.inj (Except.ok.inj hnumber)
        exact (Value.float.inj hy).symm
    · rintro y rfl
      obtain ⟨n, hn⟩ | ⟨y', hy, hregular⟩ := hkind
      · cases hn
      · cases hy
        exact hregular

end Json

/-! ## Tokens of YAML -/

namespace Yaml

namespace ScalarValue

theorem withoutGaps_of_isMark {text : String} (h : ∀ c ∈ text.toList, IsMark c) :
    withoutGaps text = text.toList := by
  refine List.filter_eq_self.mpr fun c hc => ?_
  exact forall_isMark (P := fun c => (c != '_') = true) (by decide) (h c hc)

theorem not_contains_colon {text : List Char} (h : ∀ c ∈ text, IsMark c) :
    text.contains ':' = false := by
  rw [Bool.eq_false_iff, ne_eq, List.contains_iff_mem]
  exact fun hmem => forall_isMark (P := (· ≠ ':')) (by decide) (h ':' hmem) rfl

theorem isMark_signText (negative : Bool) : ∀ c ∈ signText negative, IsMark c := by
  cases negative with
  | false => nofun
  | true => exact List.forall_mem_singleton.mpr (.inr (by decide))

theorem unsignedInt?_whole {whole : List Char} (h : Json.IsWhole whole) {n : ℤ}
    (hn : unsignedInt? whole = some n) : n = ofAsciiDigits whole := by
  rw [unsignedInt?.eq_def] at hn
  split at hn
  · cases hn
    rfl
  · exact absurd rfl (h.head.resolve_left (by simp))
  · exact absurd rfl (h.head.resolve_left (by simp))
  · next hne _ _ =>
    exact absurd rfl (h.head.resolve_left fun hzero => hne (List.cons.inj hzero).2)
  · rw [not_contains_colon fun c hc => .inl (h.digits c hc), if_neg Bool.false_ne_true,
      integer?_whole h] at hn
    obtain ⟨-, hn⟩ := Option.ite_none_left_eq_some.mp hn
    exact (Option.some.inj hn).symm

/-- **An integer in its usual spelling is read as its value.** -/
theorem int_of_isDecimalText {token : String} {negative : Bool} {whole : List Char}
    (h : IsDecimalText token.toList negative whole) {v : Value} (hv : int token = .ok v) :
    v = .int (signed negative (ofAsciiDigits whole)) := by
  have hmarks : ∀ c ∈ token.toList, IsMark c := by
    rw [h.text_eq]
    exact List.forall_mem_append.mpr ⟨isMark_signText _, fun c hc => .inl (h.isWhole.digits c hc)⟩
  have hhead := h.isWhole.head_isDigit []
  rw [List.append_nil] at hhead
  rw [int.eq_def, withoutGaps_of_isMark hmarks, h.text_eq] at hv
  split at hv
  · cases hv
  · rw [splitSign_signText negative hhead] at hv
    dsimp only at hv
    rw [List.isEmpty_eq_false_iff.mpr h.isWhole.ne_nil, if_neg Bool.false_ne_true] at hv
    split at hv
    · next n hn =>
      rw [unsignedInt?_whole h.isWhole hn] at hv
      exact (Except.ok.inj hv).symm
    · cases hv

theorem ensures_sixtiethsSum (xs : List Binary64) (weight : ℕ) {sum : Binary64}
    (h : sum.IsRegular) : Ensures Binary64.IsRegular (fun _ => True)
      (sixtiethsSum xs weight sum) := by
  induction xs generalizing weight sum with
  | nil => exact h
  | cons x xs ih =>
    rw [sixtiethsSum.eq_def]
    dsimp only
    split
    · trivial
    · exact ih _ (isRegular_add _ _)

theorem ensures_unsignedFloat (text : List Char) :
    Ensures Binary64.IsRegular (fun _ => True) (unsignedFloat text) := by
  rw [unsignedFloat]
  refine .ite trivial (.ite trivial (.ite ?_ ?_))
  · split
    · exact ensures_sixtiethsSum _ _ isNumber_zero
    · trivial
  · split
    · next x hx => exact isRegular_float? hx
    · trivial

/-- A floating-point number is one of the format. -/
theorem ensures_float (text : String) :
    Ensures (fun v => ∃ y : Binary64, v = .float y ∧ y.IsRegular) (fun _ => True) (float text) :=
  .ite trivial ((ensures_unsignedFloat _).map fun _ hy => ⟨_, rfl, hy.withSign _⟩)

/-- **A number of the format is read from its text.** -/
theorem float_text {m : ℕ} {e : ℤ} (h : IsNumber m e) (negative : Bool) :
    float (DecimalStyle.plain.text (.finite negative m e)) = .ok (.float (.finite negative m e)) := by
  obtain ⟨text, whole, fraction, powerText, power, htext, hparts⟩ :=
    exists_parts .plain negative m e
  have hmarks : ∀ c ∈ (DecimalStyle.plain.text (.finite negative m e)).toList, IsMark c := by
    rw [htext]
    exact List.forall_mem_append.mpr ⟨isMark_signText _, hparts.isMark⟩
  have hne : text ≠ [] := by
    rw [hparts.text_eq]
    exact List.append_ne_nil_of_left_ne_nil hparts.isWhole.ne_nil _
  have hword : ∀ word ∈ [".inf".toList, nanWord], (text == word) = false := by
    intro word hword
    refine beq_eq_false_iff_ne.mpr ?_
    rintro rfl
    have hwords : ∀ word ∈ [".inf".toList, nanWord],
        word.head?.map Char.isDigit = some false := by decide
    obtain ⟨c, hc, hfalse⟩ := Option.map_eq_some_iff.mp (hwords _ hword)
    exact Bool.false_ne_true (hfalse.symm.trans (hparts.head_isDigit c hc))
  have hbody : unsignedFloat text = .ok (.finite false m e) := by
    rw [unsignedFloat, hword _ (by decide), hword _ (by decide), not_contains_colon hparts.isMark,
      hparts.float?_eq, ofDecimal_shortestDigits h hparts.value]
    rfl
  have hempty : (withoutGaps (DecimalStyle.plain.text (.finite negative m e))).isEmpty = false := by
    rw [withoutGaps_of_isMark hmarks, htext]
    exact List.isEmpty_eq_false_iff.mpr (List.append_ne_nil_of_right_ne_nil _ hne)
  have hfloatBody : floatBody (DecimalStyle.plain.text (.finite negative m e)) =
      (negative, text) := by
    rw [floatBody, withoutGaps_of_isMark hmarks, map_toLower_of_isMark hmarks, htext,
      splitSign_signText negative hparts.head_isDigit]
  rw [float, hempty, if_neg Bool.false_ne_true, hfloatBody]
  dsimp only
  rw [hbody]
  cases negative <;> rfl

theorem ensures_int (text : String) :
    Ensures (fun v => ∃ n, v = .int n) (fun _ => True) (int text) := by
  rw [int.eq_def]
  split
  · trivial
  · refine .ite trivial ?_
    split
    · exact ⟨_, rfl⟩
    · trivial

theorem ensures_bool (text : String) :
    Ensures (fun v => ∃ b, v = .bool b) (fun _ => True) (bool text) := by
  rw [bool]
  split
  · exact ⟨_, rfl⟩
  · trivial

end ScalarValue

open ScalarValue

/-- Plain scalars are read so. -/
theorem IsAtom.readsUsually {token : String} {v : Value} (h : IsAtom token v) :
    ReadsUsually token v := by
  cases h with
  | bool htag hvalue =>
    obtain ⟨b, rfl⟩ := (ensures_bool token).of_ok hvalue
    refine ⟨nofun, ?_, nofun, nofun, nofun⟩
    rintro b' ⟨⟩ htoken
    simp only [List.mem_cons, List.not_mem_nil, or_false] at htoken
    obtain rfl | rfl := htoken
    · obtain rfl : true = b := Value.bool.inj (Except.ok.inj hvalue)
      rfl
    · obtain rfl : false = b := Value.bool.inj (Except.ok.inj hvalue)
      rfl
  | int htag hvalue =>
    obtain ⟨n, rfl⟩ := (ensures_int token).of_ok hvalue
    refine ⟨nofun, nofun, ?_, nofun, nofun⟩
    rintro n' ⟨⟩ negative whole htoken
    exact Value.int.inj (int_of_isDecimalText htoken hvalue)
  | float htag hvalue =>
    obtain ⟨y, rfl, hregular⟩ := (ensures_float token).of_ok hvalue
    refine ⟨nofun, nofun, nofun, ?_, ?_⟩
    · rintro y' ⟨⟩ x hx rfl
      cases x with
      | nan => exact absurd htag (by decide)
      | infinite negative => exact absurd htag (by cases negative <;> decide)
      | finite negative m e =>
        exact Value.float.inj (Except.ok.inj (hvalue.symm.trans (float_text hx negative)))
    · rintro y' ⟨⟩
      exact hregular

end Yaml

end TypeCatalog
