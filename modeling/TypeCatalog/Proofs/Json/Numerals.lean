import Mathlib.Data.List.Infix
import Mathlib.Data.List.TakeWhile
import TypeCatalog.Json.Read
import TypeCatalog.Proofs.Document.Verdict
import TypeCatalog.Proofs.Ensures

/-!
# Proofs/Json/Numerals — the integers of JSON text

An integer that is read has no more digits than may be written again, so the integers of a JSON
document fit (`fits_of_read`).  A reading that ends otherwise than for bad syntax has met more
digits in a row than that (`hasLongNumeral_of_read`).  Both follow readers down the text: what a
reader leaves is an end of what it was given (`Reads`).
-/

namespace TypeCatalog.Json

open Number Text Value

/-- A text has more digits in a row than a decimal integer may have. -/
def HasLongNumeral (text : List Char) : Prop :=
  ∃ digits, digits <:+: text ∧ (∀ c ∈ digits, c.isDigit) ∧ digitLimit < digits.length

/-- A long numeral at an end of a text is one of the text. -/
theorem HasLongNumeral.of_suffix {text rest : List Char} (h : HasLongNumeral rest)
    (hrest : rest <:+ text) : HasLongNumeral text := by
  obtain ⟨digits, hdigits, hall, hlong⟩ := h
  exact ⟨digits, hdigits.trans hrest.isInfix, hall, hlong⟩

/-! ## What a reader does -/

section Reads

variable {α β : Type} {P : α → Prop} {Q : β → Prop} {text rest : List Char}
  {x : Except ReadError (α × List Char)}

/-- A text accounts for an error: it has an integer that is too long, unless its syntax is bad. -/
def Accounts (text : List Char) (e : ReadError) : Prop :=
  e = .oversizedInteger → HasLongNumeral text

/-- A reader leaves an end of the text after what it has read, or fails as the text accounts for. -/
abbrev Reads (P : α → Prop) (text : List Char) (x : Except ReadError (α × List Char)) : Prop :=
  Ensures (fun r => P r.1 ∧ r.2 <:+ text) (Accounts text) x

theorem accounts_malformed : Accounts text .malformed := nofun

theorem reads_malformed : Reads P text (.error .malformed) := accounts_malformed

/-- What is read at an end of a text is read in the text. -/
theorem Reads.of_suffix (h : Reads P rest x) (hrest : rest <:+ text) : Reads P text x :=
  h.mono (fun _ hr => ⟨hr.1, hr.2.trans hrest⟩) fun _ he hlong => (he hlong).of_suffix hrest

theorem Reads.map {f : α → β} (h : Reads P text x) (hf : ∀ a, P a → Q (f a)) :
    Reads Q text (x.map fun (a, rest) => (f a, rest)) :=
  Ensures.map h fun _ hr => ⟨hf _ hr.1, hr.2⟩

end Reads

theorem skipSpace_suffix (text : List Char) : skipSpace text <:+ text := List.dropWhile_suffix _

/-! ## Numbers -/

/-- Another digit keeps a number below the next power of ten. -/
theorem shift_lt {n p d : Nat} (hn : n < p) (hd : d ≤ 9) : n * 10 + d < p * 10 := by omega

/-- A number is below the power of ten with as many zeros as it has digits. -/
theorem ofAsciiDigits_lt {digits : List Char} (h : ∀ c ∈ digits, c.isDigit) :
    ofAsciiDigits digits < Nat.pow 10 digits.length := by
  rw [ofAsciiDigits]
  induction digits using List.reverseRecOn with
  | nil => exact Nat.one_pos
  | append_singleton digits c ih =>
    obtain ⟨hdigits, hc⟩ := List.forall_mem_append.mp h
    have hle := (Char.isDigit_iff_toNat.mp (hc c (List.mem_singleton_self c))).2
    have hvalue : c.toNat - '0'.toNat ≤ 9 := Nat.sub_le_of_le_add hle
    rw [List.foldl_append, List.foldl_cons, List.foldl_nil, List.length_append,
      List.length_singleton]
    exact shift_lt (ih hdigits) hvalue

/-- A number is written with no more digits than it was read from. -/
theorem length_toDigits_ofAsciiDigits {digits : List Char} {limit : Nat}
    (h : ∀ c ∈ digits, c.isDigit) (hpos : 0 < limit) (hlength : digits.length ≤ limit) :
    (Nat.toDigits 10 (ofAsciiDigits digits)).length ≤ limit := by
  rw [Nat.length_toDigits_le_iff (by decide) hpos]
  exact Nat.lt_of_lt_of_le (ofAsciiDigits_lt h) (Nat.pow_le_pow_right (by decide) hlength)

/-- An integer of so many digits can be written again, whatever its sign. -/
theorem fits_int_of_length {digits : List Char} (h : ∀ c ∈ digits, c.isDigit)
    (hlength : digits.length ≤ digitLimit) (negative : Bool) :
    Fits (.int (if negative then -(ofAsciiDigits digits : Int) else ofAsciiDigits digits)) := by
  have habs : (if negative then -(ofAsciiDigits digits : Int) else ofAsciiDigits digits).natAbs =
      ofAsciiDigits digits := by
    cases negative
    · exact Int.natAbs_natCast _
    · exact (Int.natAbs_neg _).trans (Int.natAbs_natCast _)
  rw [Fits, fits, habs, decide_eq_true_iff]
  exact length_toDigits_ofAsciiDigits h (by rw [digitLimit]; decide) hlength

/-- The digits at the start of a text, and what follows them. -/
theorem spanAsciiDigits_eq {text digits rest : List Char}
    (h : spanAsciiDigits text = (digits, rest)) :
    digits ++ rest = text ∧ ∀ c ∈ digits, c.isDigit := by
  obtain ⟨rfl, rfl⟩ := Prod.mk.inj h
  exact ⟨List.takeWhile_append_dropWhile, fun c hc => List.mem_takeWhile_imp hc⟩

/-- The whole part of a number is made of digits. -/
theorem wholePart?_eq_some {text whole rest : List Char}
    (h : wholePart? text = some (whole, rest)) :
    whole ++ rest = text ∧ ∀ c ∈ whole, c.isDigit := by
  rw [wholePart?.eq_def] at h
  split at h
  · obtain ⟨rfl, rfl⟩ := Prod.mk.inj (Option.some.inj h)
    exact ⟨rfl, List.forall_mem_singleton.mpr rfl⟩
  · cases hspan : spanAsciiDigits text with
    | mk digits after =>
      rw [hspan] at h
      dsimp only at h
      split at h
      · cases h
      · obtain ⟨rfl, rfl⟩ := Prod.mk.inj (Option.some.inj h)
        exact spanAsciiDigits_eq hspan

theorem fractionPart?_suffix {text digits rest : List Char}
    (h : fractionPart? text = some (digits, rest)) : rest <:+ text := by
  rw [fractionPart?.eq_def] at h
  split at h
  · next text =>
    cases hspan : spanAsciiDigits text with
    | mk ds after =>
      rw [hspan] at h
      dsimp only at h
      split at h
      · cases h
      · obtain ⟨rfl, rfl⟩ := Prod.mk.inj (Option.some.inj h)
        obtain ⟨rfl, -⟩ := spanAsciiDigits_eq hspan
        exact (List.suffix_append _ _).trans (List.suffix_cons '.' _)
  · cases h

theorem splitSign_suffix (text : List Char) : (splitSign text).2 <:+ text := by
  rw [splitSign.eq_def]
  split
  · exact List.suffix_cons _ _
  · exact List.suffix_cons _ _
  · exact List.suffix_refl _

/-- The exponent of a number, with its letter and its sign. -/
theorem exponentPart?_suffix {text rest : List Char} {n : Int}
    (h : exponentPart? text = some (n, rest)) : rest <:+ text := by
  rw [exponentPart?.eq_def] at h
  split at h
  · next c text =>
    split at h
    · cases hsign : splitSign text with
      | mk negative body =>
        cases hspan : spanAsciiDigits body with
        | mk digits after =>
          rw [hsign] at h
          dsimp only at h
          rw [hspan] at h
          dsimp only at h
          split at h
          · cases h
          · obtain ⟨-, rfl⟩ := Prod.mk.inj (Option.some.inj h)
            obtain ⟨rfl, -⟩ := spanAsciiDigits_eq hspan
            have hbody := splitSign_suffix text
            rw [hsign] at hbody
            exact ((List.suffix_append _ _).trans hbody).trans (List.suffix_cons c text)
    · cases h
  · cases h

/-- **A number is read as one that fits, or its whole part is a numeral that is too long.** -/
theorem reads_number (text : List Char) : Reads Fits text (number text) := by
  rw [number.eq_def]
  split
  next _ negative body hbody =>
  have hsuffix : body <:+ text := by
    split at hbody
    · obtain ⟨-, rfl⟩ := Prod.mk.inj hbody
      exact List.suffix_cons _ _
    · obtain ⟨-, rfl⟩ := Prod.mk.inj hbody
      exact List.suffix_refl _
  refine Reads.of_suffix ?_ hsuffix
  cases hwhole : wholePart? body with
  | none => exact reads_malformed
  | some found =>
    obtain ⟨whole, rest⟩ := found
    obtain ⟨rfl, hdigits⟩ := wholePart?_eq_some hwhole
    have hrest : rest <:+ whole ++ rest := List.suffix_append _ _
    dsimp only
    split
    · split
      · next hlong => exact fun _ => ⟨whole, (List.prefix_append _ _).isInfix, hdigits, hlong⟩
      · next hlong => exact ⟨fits_int_of_length hdigits (Nat.le_of_not_lt hlong) negative, hrest⟩
    · have hfraction : (fractionPart? rest).elim rest (·.2) <:+ rest := by
        cases hf : fractionPart? rest with
        | none => exact List.suffix_refl _
        | some found => exact fractionPart?_suffix hf
      refine ⟨rfl, List.IsSuffix.trans ?_ (hfraction.trans hrest)⟩
      cases hp : exponentPart? ((fractionPart? rest).elim rest (·.2)) with
      | none => exact List.suffix_refl _
      | some found => exact exponentPart?_suffix hp

/-- The words all have values that fit. -/
theorem word?_eq_some {text rest : List Char} {v : Value} (h : word? text = some (v, rest)) :
    Fits v ∧ rest <:+ text := by
  have hwords : ∀ entry ∈ words, entry.2.fits := by decide
  obtain ⟨⟨w, u⟩, hentry, hfound⟩ := List.exists_of_findSome?_eq_some h
  dsimp only at hfound
  split at hfound
  · obtain ⟨rfl, rfl⟩ := Prod.mk.inj (Option.some.inj hfound)
    exact ⟨hwords _ hentry, List.drop_suffix _ _⟩
  · cases hfound

/-! ## Strings -/

theorem prependAll_eq_some {cs : List Char} {x : Option (List Char × List Char)}
    {s rest : List Char} (h : prependAll cs x = some (s, rest)) :
    ∃ s', x = some (s', rest) := by
  obtain ⟨⟨s', rest'⟩, hx, heq⟩ := Option.map_eq_some_iff.mp h
  obtain ⟨-, rfl⟩ := Prod.mk.inj heq
  exact ⟨s', hx⟩

/-- The inside of a string, up to its quote. -/
theorem stringBody_suffix {text s rest : List Char} (h : stringBody text = some (s, rest)) :
    rest <:+ text := by
  fun_induction stringBody text generalizing s with
  | case1 | case3 | case6 | case8 | case10 => cases h
  | case2 =>
    obtain ⟨-, rfl⟩ := Prod.mk.inj (Option.some.inj h)
    exact List.suffix_cons _ _
  | case4 | case5 | case7 | case9 | case11 =>
    rename_i ih
    obtain ⟨s', hs'⟩ := prependAll_eq_some h
    exact (ih hs').trans (by simp only [List.suffix_cons_iff, List.suffix_refl, or_true])

/-! ## Values -/

/-- An object fits with one more entry that fits. -/
theorem fits_insert {entries : List (Value × Value)} {k v : Value}
    (h : Fits (.object entries)) (hk : Fits k) (hv : Fits v) :
    Fits (.object (insert entries k v)) := by
  rw [Fits, fits, entriesFit_iff] at h ⊢
  induction entries with
  | nil => exact List.forall_mem_singleton.mpr ⟨hk, hv⟩
  | cons entry rest ih =>
    obtain ⟨hentry, hrest⟩ := List.forall_mem_cons.mp h
    rw [insert.eq_def]
    dsimp only
    split
    · exact List.forall_mem_cons.mpr ⟨⟨hentry.1, hv⟩, hrest⟩
    · exact List.forall_mem_cons.mpr ⟨hentry, ih hrest⟩

/-- The readers of values read so, up to some depth of calls. -/
structure ReadsValues (fuel : Nat) : Prop where
  value (text : List Char) : Reads Fits text (value fuel text)
  items (text : List Char) : Reads (fun vs => Fits (.list vs)) text (items fuel text)
  entries (text : List Char) {sofar : List (Value × Value)} (h : Fits (.object sofar)) :
    Reads (fun es => Fits (.object es)) text (entries fuel text sofar)

section Succ

variable {fuel : Nat} (h : ReadsValues fuel)
include h

/-- A value, from the readers one call further down. -/
theorem ReadsValues.value_succ (text : List Char) :
    Reads Fits text (Json.value (fuel + 1) text) := by
  rw [Json.value.eq_def]
  dsimp only
  split
  · split
    · next hs => exact ⟨rfl, (stringBody_suffix hs).trans (List.suffix_cons _ _)⟩
    · exact reads_malformed
  · next rest =>
    have hinner : skipSpace rest <:+ '[' :: rest :=
      (skipSpace_suffix rest).trans (List.suffix_cons _ _)
    split
    · next hempty => exact ⟨rfl, (hempty ▸ List.suffix_cons _ _).trans hinner⟩
    · exact ((h.items _).map fun _ hvs => hvs).of_suffix hinner
  · next rest =>
    have hinner : skipSpace rest <:+ '\x7b' :: rest :=
      (skipSpace_suffix rest).trans (List.suffix_cons _ _)
    split
    · next hempty => exact ⟨rfl, (hempty ▸ List.suffix_cons _ _).trans hinner⟩
    · have hnone : Fits (.object []) := rfl
      exact ((h.entries _ hnone).map fun _ hes => hes).of_suffix hinner
  · split
    · next hword => exact word?_eq_some hword
    · exact reads_number text

/-- The items of a list, from the readers one call further down. -/
theorem ReadsValues.items_succ (text : List Char) :
    Reads (fun vs => Fits (.list vs)) text (Json.items (fuel + 1) text) := by
  rw [Json.items.eq_def]
  obtain ⟨⟨v, rest⟩, hx, hv, hrest⟩ | ⟨e, hx, he⟩ := (h.value text).ok_or_error
  · have hrest := (skipSpace_suffix rest).trans hrest
    simp only [hx]
    split
    · next hend =>
      rw [hend] at hrest
      exact ⟨allFit_iff.mpr (List.forall_mem_singleton.mpr hv),
        (List.suffix_cons _ _).trans hrest⟩
    · next more hmore =>
      rw [hmore] at hrest
      refine ((h.items (skipSpace more)).map fun vs hvs => ?_).of_suffix
        ((skipSpace_suffix more).trans ((List.suffix_cons _ _).trans hrest))
      exact allFit_iff.mpr (List.forall_mem_cons.mpr ⟨hv, allFit_iff.mp hvs⟩)
    · exact reads_malformed
  · simp only [hx]
    exact he

/-- The entries of an object, from the readers one call further down. -/
theorem ReadsValues.entries_succ (text : List Char) {sofar : List (Value × Value)}
    (hsofar : Fits (.object sofar)) :
    Reads (fun es => Fits (.object es)) text (Json.entries (fuel + 1) text sofar) := by
  rw [Json.entries.eq_def]
  dsimp only
  split
  case h_2 => exact reads_malformed
  next rest =>
  split
  case h_1 => exact reads_malformed
  next key after hs =>
  have hafter := (skipSpace_suffix after).trans
    ((stringBody_suffix hs).trans (List.suffix_cons '"' rest))
  split
  case h_2 => exact reads_malformed
  next body hcolon =>
  rw [hcolon] at hafter
  have hbody := (skipSpace_suffix body).trans ((List.suffix_cons _ _).trans hafter)
  obtain ⟨⟨v, rest⟩, hx, hv, hrest⟩ | ⟨e, hx, he⟩ :=
    ((h.value (skipSpace body)).of_suffix hbody).ok_or_error
  · have hrest := (skipSpace_suffix rest).trans hrest
    have hnow := fits_insert hsofar (k := .string (String.ofList key)) rfl hv
    simp only [hx]
    split
    · next hend =>
      rw [hend] at hrest
      exact ⟨hnow, (List.suffix_cons _ _).trans hrest⟩
    · next more hmore =>
      rw [hmore] at hrest
      exact (h.entries (skipSpace more) hnow).of_suffix
        ((skipSpace_suffix more).trans ((List.suffix_cons _ _).trans hrest))
    · exact reads_malformed
  · simp only [hx]
    exact he

end Succ

/-- **Every value is read so**, and so are the items of a list and the entries of an object. -/
theorem readsValues (fuel : Nat) : ReadsValues fuel := by
  induction fuel with
  | zero => exact ⟨fun _ => reads_malformed, fun _ => reads_malformed, fun _ _ _ => reads_malformed⟩
  | succ fuel ih => exact ⟨ih.value_succ, ih.items_succ, ih.entries_succ⟩

/-! ## Texts -/

theorem reads_text (text : List Char) :
    Reads Fits text (value (text.length + 1) (skipSpace text)) :=
  ((readsValues _).value _).of_suffix (skipSpace_suffix text)

/-- A whole text is read as a value that fits, or accounts for its error. -/
theorem ensures_read (text : String) :
    Ensures Fits (Accounts text.toList) (read text) := by
  obtain ⟨⟨v, rest⟩, hx, hv, -⟩ | ⟨e, hx, he⟩ := (reads_text text.toList).ok_or_error
  · rw [read, hx]
    exact .ite hv accounts_malformed
  · rw [read, hx]
    exact he

/-- **The integers of a JSON document can all be written again.** -/
theorem fits_of_read {text : String} {v : Value} (h : read text = .ok v) : Fits v :=
  (ensures_read text).of_ok h

/-- **A text that is refused for a number has more digits in a row than may be written.** -/
theorem hasLongNumeral_of_read {text : String} (h : read text = .error .oversizedInteger) :
    HasLongNumeral text.toList :=
  (ensures_read text).of_error h rfl

/-! ## Marks -/

/-- A text, and the same text with marks put in. -/
inductive PutIn : List Char → List Char → Prop
  | nil : PutIn [] []
  | keep (c : Char) {text marked : List Char} : PutIn text marked → PutIn (c :: text) (c :: marked)
  | mark {text marked : List Char} : PutIn text marked → PutIn text (Text.mark :: marked)

/-- Writing the mark twice puts marks in and changes nothing else. -/
theorem putIn_markTwice (text : List Char) : PutIn text (markTwice text) := by
  fun_induction markTwice text with
  | case1 a b c d rest _ ih =>
    exact .keep _ (.keep _ (.keep a (.keep b (.keep c (.keep d (.mark ih))))))
  | case2 a b c d rest _ ih => exact .keep _ (.keep _ (.keep a (.keep b (.keep c (.keep d ih)))))
  | case3 c rest _ ih => exact .keep _ (.keep c ih)
  | case4 rest _ _ ih => exact .keep _ (.mark ih)
  | case5 c rest _ _ _ ih => exact .keep c ih
  | case6 => exact .nil

section PutIn

variable {text marked digits : List Char} (h : PutIn text marked) (hall : ∀ c ∈ digits, c.isDigit)
include h hall

/-- Digits that start a text with marks start it without them. -/
theorem PutIn.starts (hdigits : digits <+: marked) : digits <+: text := by
  induction h generalizing digits with
  | nil => exact hdigits
  | keep c _ ih =>
    cases digits with
    | nil => exact List.nil_prefix
    | cons d digits =>
      obtain ⟨rfl, hrest⟩ := List.cons_prefix_cons.mp hdigits
      exact List.cons_prefix_cons.mpr ⟨rfl, ih (List.forall_mem_cons.mp hall).2 hrest⟩
  | mark _ _ =>
    cases digits with
    | nil => exact List.nil_prefix
    | cons d digits =>
      obtain ⟨rfl, -⟩ := List.cons_prefix_cons.mp hdigits
      exact absurd (hall _ List.mem_cons_self) (by decide)

/-- Digits that stand together between marks do so without the marks. -/
theorem PutIn.holds (hdigits : digits <:+: marked) : digits <:+: text := by
  induction h with
  | nil => exact hdigits
  | keep c hrest ih =>
    obtain hfront | hback := List.infix_cons_iff.mp hdigits
    · exact ((hrest.keep c).starts hall hfront).isInfix
    · exact (ih hback).trans (List.suffix_cons _ _).isInfix
  | mark hrest ih =>
    obtain hfront | hback := List.infix_cons_iff.mp hdigits
    · exact (hrest.mark.starts hall hfront).isInfix
    · exact ih hback

end PutIn

/-- The digits that a text is refused for are its own. -/
theorem hasLongNumeral_of_inMarking {text : String} (h : HasLongNumeral (inMarking text).toList) :
    HasLongNumeral text.toList := by
  rw [inMarking] at h
  split at h
  · exact h
  · obtain ⟨digits, hdigits, hall, hlong⟩ := h
    rw [String.toList_ofList] at hdigits
    exact ⟨digits, (putIn_markTwice _).holds hall hdigits, hall, hlong⟩

end TypeCatalog.Json
