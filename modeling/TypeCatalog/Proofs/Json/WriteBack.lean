import TypeCatalog.Json.Write
import TypeCatalog.Proofs.Document.Verdict
import TypeCatalog.Proofs.Json.NumberText

/-!
# Proofs/Json/WriteBack — what is written as JSON is read again

`Json.line` writes the entries of objects by key, and what JSON has no form for as a string; that is
the `form` of a value.  **A value with numbers of the format and with different strings as keys is
read from its line in this form** (`read_line`), and nothing is lost under any key (`lookup_form`).
-/

namespace TypeCatalog.Json

open Number Binary64 Text Value

/-! ## Characters -/

theorem hexValue?_digitChar : ∀ d < 16, hexValue? (Nat.digitChar d) = some d := by decide

theorem hexNumber?_concat (digits : List Char) (c : Char) : hexNumber? (digits ++ [c]) =
    (hexNumber? digits).bind fun n => (hexValue? c).map (n * 16 + ·) := by
  simp [hexNumber?, List.foldlM_append]

/-- The digits of a number are read as the number. -/
theorem hexNumber?_toDigits (n : ℕ) : hexNumber? (Nat.toDigits 16 n) = some n := by
  induction n using Nat.strongRecOn with
  | ind n ih =>
    rw [Nat.toDigits_eq_if (by decide)]
    split
    · next h =>
      rw [← List.nil_append [_], hexNumber?_concat, hexValue?_digitChar n h]
      simp [hexNumber?]
    · next h =>
      rw [hexNumber?_concat, ih (n / 16) (by omega),
        hexValue?_digitChar _ (Nat.mod_lt n (by decide))]
      simp only [Option.bind_some, Option.map_some]
      congr 1
      omega

theorem hexNumber?_zeros (k : ℕ) (digits : List Char) :
    hexNumber? (List.replicate k '0' ++ digits) = hexNumber? digits := by
  induction k with
  | zero => rfl
  | succ k ih =>
    rw [List.replicate_succ, List.cons_append, hexNumber?, List.foldlM_cons]
    exact ih

/-- A number below `16 ^ 4` has four digits. -/
theorem exists_hexPadded {n : ℕ} (h : n < 0x10000) :
    ∃ a b c d, hexPadded 4 n = [a, b, c, d] ∧ hexNumber? [a, b, c, d] = some n := by
  have hlength : (Nat.toDigits 16 n).length ≤ 4 :=
    (Nat.length_toDigits_le_iff (by decide) (by decide)).mpr h
  have hpadded : (hexPadded 4 n).length = 4 := by
    rw [hexPadded, List.length_append, List.length_replicate]
    omega
  have hvalue : hexNumber? (hexPadded 4 n) = some n := by
    rw [hexPadded, hexNumber?_zeros, hexNumber?_toDigits]
  match hdigits : hexPadded 4 n, hpadded with
  | [a, b, c, d], _ => exact ⟨a, b, c, d, rfl, hdigits ▸ hvalue⟩

/-- No character is half of a pair. -/
theorem not_isHalf_toNat (c : Char) : ¬ (0xD800 ≤ c.toNat ∧ c.toNat < 0xE000) := by
  have hvalid : c.toNat < 0xD800 ∨ 0xDFFF < c.toNat ∧ c.toNat < 0x110000 := c.valid
  omega

/-- The number of a character writes the character. -/
theorem unitText_toNat (c : Char) : unitText c.toNat = [c] := by
  have h := not_isHalf_toNat c
  rw [unitText, if_neg (by simpa [isHalf] using h), Char.ofNat_toNat]

/-- The number of a character is not that of the first half of a pair. -/
theorem pairChar?_toNat (c : Char) (low : ℕ) : pairChar? c.toNat low = none := by
  have := not_isHalf_toNat c
  rw [pairChar?, if_neg (by omega)]

/-- A character in one unit. -/
theorem stringBody_unit {c : Char} (hc : c.toNat < 0x10000) (text : List Char) :
    stringBody (unitEscape c.toNat ++ text) = prepend c (stringBody text) := by
  obtain ⟨a, b, d, e, hdigits, hvalue⟩ := exists_hexPadded hc
  rw [unitEscape, hdigits]
  simp only [List.cons_append, List.nil_append]
  rw [stringBody.eq_def]
  have hpair (low : Option ℕ) : low.bind (pairChar? c.toNat) = none := by
    cases low with
    | none => rfl
    | some n => exact pairChar?_toNat c n
  -- Another unit may follow, but then it is no half of a pair with this one.
  split
  case h_3 heq =>
    cases heq
    simp only [hvalue, hpair, unitText_toNat]
    rfl
  case h_4 heq =>
    cases heq
    simp only [hvalue, unitText_toNat]
    rfl
  case h_5 hsingle heq =>
    cases heq
    exact (hsingle _ _ _ _ _ rfl rfl).elim
  case h_6 hsingle _ heq =>
    cases heq
    exact (hsingle _ _ _ _ _ rfl rfl).elim
  all_goals cases ‹_›

/-- The halves that a character is written in are joined to it. -/
theorem pairChar?_halves {c : Char} {q r : ℕ} (hq : q < 0x400) (hr : r < 0x400)
    (hc : c.toNat = 0x10000 + q * 0x400 + r) : pairChar? (0xD800 + q) (0xDC00 + r) = some c := by
  have hhigh : 0xD800 + q - 0xD800 = q := Nat.add_sub_cancel_left _ _
  have hlow : 0xDC00 + r - 0xDC00 = r := Nat.add_sub_cancel_left _ _
  rw [pairChar?, if_pos (by omega), hhigh, hlow, ← hc, Char.ofNat_toNat]

/-- A character beyond the first plane, in two units. -/
theorem stringBody_pair {c : Char} {q r : ℕ} (hq : q < 0x400) (hr : r < 0x400)
    (hc : c.toNat = 0x10000 + q * 0x400 + r) (text : List Char) :
    stringBody (unitEscape (0xD800 + q) ++ (unitEscape (0xDC00 + r) ++ text)) =
      prepend c (stringBody text) := by
  have hpair := pairChar?_halves hq hr hc
  have hq' : 0xD800 + q < 0x10000 := by omega
  have hr' : 0xDC00 + r < 0x10000 := by omega
  generalize 0xD800 + q = high at *
  generalize 0xDC00 + r = low at *
  obtain ⟨a, b, d, e, hhigh, hhighValue⟩ := exists_hexPadded hq'
  obtain ⟨f, g, h, i, hlow, hlowValue⟩ := exists_hexPadded hr'
  rw [unitEscape, unitEscape, hhigh, hlow]
  simp only [List.cons_append, List.nil_append, stringBody, hhighValue, hlowValue, Option.bind_some,
    hpair]

/-- **A character is read as it is written**, whatever comes next. -/
theorem stringBody_charText (c : Char) (text : List Char) :
    stringBody (charText c ++ text) = prepend c (stringBody text) := by
  rw [charText]
  split
  · next h => subst h; simp [stringBody, escape?]
  split
  · next h => subst h; simp [stringBody, escape?]
  split
  · next h => subst h; simp [stringBody, escape?]
  split
  · next h => subst h; simp [stringBody, escape?]
  split
  · next h => subst h; simp [stringBody, escape?]
  split
  · next h => subst h; simp [stringBody, escape?]
  split
  · next h => subst h; simp [stringBody, escape?]
  split
  · next hquote hslash _ _ _ _ _ h =>
    rw [List.singleton_append, stringBody, if_neg (by omega)]
    · exact hquote
    · rintro _ _ _ _ _ _ _ _ _ rfl
      exact absurd rfl hslash
    · rintro _ _ _ _ _ rfl
      exact absurd rfl hslash
    · rintro _ _ rfl
      exact absurd rfl hslash
  split
  · next h => exact stringBody_unit h text
  · next h =>
    dsimp only
    rw [List.append_assoc]
    have hvalid : c.toNat < 0xD800 ∨ 0xDFFF < c.toNat ∧ c.toNat < 0x110000 := c.valid
    exact stringBody_pair (by omega) (by omega) (by omega) text

/-- What is written between quotes is read as the text. -/
theorem stringBody_text (s rest : List Char) :
    stringBody (s.flatMap charText ++ '"' :: rest) = some (s, rest) := by
  induction s with
  | nil => simp [stringBody]
  | cons c s ih =>
    rw [List.flatMap_cons, List.append_assoc, stringBody_charText, ih]
    rfl

theorem toList_stringText (s : String) :
    (stringText s).toList = '"' :: (s.toList.flatMap charText ++ ['"']) := by
  rw [stringText, String.toList_ofList, List.cons_append]

/-! ## The form of a value -/

mutual
/-- A value as JSON has it. -/
def form : Value → Value
  | .list items => .list (forms items)
  | .object entries =>
    .object ((sortEntries (entryForms entries)).map fun (k, v) => (.string k, v))
  | .pair a b => .list [form a, form b]
  | .day d => .string (((Value.day d).printed?).getD "")
  | .moment m => .string (((Value.moment m).printed?).getD "")
  | .bytes b => .string (((Value.bytes b).printed?).getD "")
  | .set items => .string (((Value.set items).printed?).getD "")
  | v => v

/-- The items of a list as JSON has them. -/
def forms : List Value → List Value
  | [] => []
  | v :: rest => form v :: forms rest

/-- The entries of an object as JSON has them, with the texts of their keys. -/
def entryForms : List (Value × Value) → List (String × Value)
  | [] => []
  | (k, v) :: rest => (keyText k, form v) :: entryForms rest
end

mutual
/-- A value has numbers of the format, and different strings as keys. -/
def IsProper : Value → Prop
  | .float (.finite _ m e) => IsNumber m e
  | .list items => AreProper items
  | .object entries => (entries.map Prod.fst).Nodup ∧ EntriesProper entries
  | .pair a b => IsProper a ∧ IsProper b
  | _ => True

/-- All items of a list are so. -/
def AreProper : List Value → Prop
  | [] => True
  | v :: rest => IsProper v ∧ AreProper rest

/-- All entries of an object have strings as keys and such values. -/
def EntriesProper : List (Value × Value) → Prop
  | [] => True
  | (k, v) :: rest => (∃ s, k = .string s) ∧ IsProper v ∧ EntriesProper rest
end

theorem forms_eq_map (vs : List Value) : forms vs = vs.map form := by
  induction vs with
  | nil => rfl
  | cons v vs ih => rw [forms, ih, List.map_cons]

theorem lines_eq_map (vs : List Value) : lines vs = vs.map line := by
  induction vs with
  | nil => rfl
  | cons v vs ih => rw [lines, ih, List.map_cons]

/-- The entries of an object with the texts of their keys. -/
def keyed (entries : List (Value × Value)) : List (String × Value) :=
  entries.map fun (k, v) => (keyText k, v)

theorem entryForms_eq_map (es : List (Value × Value)) :
    entryForms es = (keyed es).map fun (k, v) => (k, form v) := by
  induction es with
  | nil => rfl
  | cons e es ih =>
    rw [entryForms, ih]
    rfl

theorem entryLines_eq_map (es : List (Value × Value)) :
    entryLines es = (keyed es).map fun (k, v) => (k, line v) := by
  induction es with
  | nil => rfl
  | cons e es ih =>
    rw [entryLines, ih]
    rfl

theorem insertSorted_map {α β : Type} (f : α → β) (entry : String × α) (es : List (String × α)) :
    insertSorted (entry.1, f entry.2) (es.map fun (k, v) => (k, f v)) =
      (insertSorted entry es).map fun (k, v) => (k, f v) := by
  induction es with
  | nil => rfl
  | cons other rest ih =>
    rw [List.map_cons, insertSorted, insertSorted, ih]
    by_cases h : entry.1 < other.1
    · simp only [if_pos h, List.map_cons]
    · simp only [if_neg h, List.map_cons]

/-- Entries are sorted by their keys alone. -/
theorem sortEntries_map {α β : Type} (f : α → β) (es : List (String × α)) :
    sortEntries (es.map fun (k, v) => (k, f v)) = (sortEntries es).map fun (k, v) => (k, f v) := by
  induction es with
  | nil => rfl
  | cons e es ih =>
    change insertSorted (e.1, f e.2) (sortEntries (es.map fun (k, v) => (k, f v))) = _
    rw [ih, insertSorted_map]
    rfl

theorem insertSorted_perm {α : Type} (entry : String × α) (es : List (String × α)) :
    (insertSorted entry es).Perm (entry :: es) := by
  induction es with
  | nil => exact .refl _
  | cons other rest ih =>
    rw [insertSorted]
    split
    · exact .refl _
    · exact (ih.cons other).trans (.swap entry other rest)

/-- Sorting changes only the order. -/
theorem sortEntries_perm {α : Type} (es : List (String × α)) : (sortEntries es).Perm es := by
  induction es with
  | nil => exact .refl _
  | cons e es ih => exact (insertSorted_perm e _).trans (ih.cons e)

/-! ## Values that are no lists and no objects -/

/-- What begins a text is not skipped before a value, and ends no list and no object. -/
def OpensValue (text : List Char) : Prop :=
  ∃ c rest, text = c :: rest ∧ isGap c = false ∧ c ∉ [']', '\x7d']

theorem OpensValue.skipSpace {text : List Char} (h : OpensValue text) (rest : List Char) :
    skipSpace (text ++ rest) = text ++ rest := by
  obtain ⟨c, tail, rfl, hc, -⟩ := h
  exact List.dropWhile_cons_of_neg (by simp [hc])

/-- A value is read from its line, whatever comes next. -/
structure ReadsBack (v : Value) : Prop where
  opens : OpensValue (line v).toList
  reads : ∀ fuel rest, (line v).toList.length < fuel → EndsValue rest →
    value fuel ((line v).toList ++ rest) = .ok (form v, rest)

/-- A value that is written as a word is read back. -/
theorem readsBack_of_word {v : Value} {w : String} (hline : line v = w) (hform : form v = v)
    (hopens : OpensValue w.toList)
    (hword : ∀ fuel rest, value (fuel + 1) (w.toList ++ rest) = .ok (v, rest)) : ReadsBack v where
  opens := hline ▸ hopens
  reads fuel rest hfuel _ := by
    obtain ⟨fuel, rfl⟩ := Nat.exists_eq_add_one.mpr (Nat.zero_lt_of_lt hfuel)
    rw [hline, hform, hword]

theorem word?_eq_none {text : List Char}
    (h : ∀ w ∈ words, w.1.toList.isPrefixOf text = false) : word? text = none := by
  rw [word?, List.findSome?_eq_none_iff]
  intro w hw
  simp only [h w hw, Bool.false_eq_true, if_false]

/-- No word starts with a digit, be it after a sign. -/
theorem exists_firstChar : ∀ w ∈ words, ∃ negative c tail,
    w.1.toList = signText negative ++ c :: tail ∧ c.isDigit = false ∧ c ≠ '-' := by
  simp only [words, List.forall_mem_cons]
  exact ⟨⟨false, 'n', ['u', 'l', 'l'], rfl, rfl, by decide⟩,
    ⟨false, 't', ['r', 'u', 'e'], rfl, rfl, by decide⟩,
    ⟨false, 'f', ['a', 'l', 's', 'e'], rfl, rfl, by decide⟩,
    ⟨false, 'N', ['a', 'N'], rfl, rfl, by decide⟩,
    ⟨false, 'I', ['n', 'f', 'i', 'n', 'i', 't', 'y'], rfl, rfl, by decide⟩,
    ⟨true, 'I', ['n', 'f', 'i', 'n', 'i', 't', 'y'], rfl, rfl, by decide⟩, List.forall_mem_nil _⟩

/-- No word starts as a number does. -/
theorem word?_number {d : Char} (hd : d.isDigit) (negative : Bool) (text : List Char) :
    word? (signText negative ++ d :: text) = none := by
  refine word?_eq_none fun w hw => ?_
  obtain ⟨sign, c, tail, hw, hc, hminus⟩ := exists_firstChar w hw
  have hcd : (c == d) = false := by
    refine beq_eq_false_iff_ne.mpr ?_
    rintro rfl
    exact Bool.false_ne_true (hc.symm.trans hd)
  have hsign : ('-' == d) = false := by
    refine beq_eq_false_iff_ne.mpr ?_
    rintro rfl
    cases hd
  have hfirst : (c == '-') = false := beq_eq_false_iff_ne.mpr hminus
  rw [hw]
  cases sign <;> cases negative <;>
    simp [signText, List.isPrefixOf, hcd, hsign, hfirst]

/-- What starts with a digit, perhaps after a sign, is a number. -/
theorem value_eq_number {d : Char} (hd : d.isDigit) (negative : Bool) (fuel : ℕ)
    (text : List Char) :
    value (fuel + 1) (signText negative ++ d :: text) =
      number (signText negative ++ d :: text) := by
  have hword := word?_number hd negative text
  have hhead : ∀ c rest, c ∈ ['"', '[', '\x7b'] → signText negative ++ d :: text ≠ c :: rest := by
    rintro c rest hc heq
    have hcd : c = '-' ∨ c = d := by
      cases negative with
      | true => exact .inl (List.cons.inj heq).1.symm
      | false => exact .inr (List.cons.inj heq).1.symm
    obtain rfl | rfl := hcd
    · exact absurd hc (by decide)
    · simp only [List.mem_cons, List.not_mem_nil, or_false] at hc
      obtain rfl | rfl | rfl := hc <;> cases hd
  rw [value, hword]
  · exact fun rest => hhead _ rest (by decide)
  · exact fun rest => hhead _ rest (by decide)
  · exact fun rest => hhead _ rest (by decide)

/-- A value that is written as a number is read back, whatever ends it. -/
theorem readsBack_of_number {v : Value} {negative : Bool} {d : Char} {text : List Char}
    (hline : (line v).toList = signText negative ++ d :: text) (hd : d.isDigit) (hform : form v = v)
    (hnumber : ∀ rest, EndsValue rest → number ((line v).toList ++ rest) = .ok (v, rest)) :
    ReadsBack v where
  opens := by
    have hdigit : isGap d = false ∧ d ∉ [']', '\x7d'] := by
      simp only [isGap, Bool.or_eq_false_iff, beq_eq_false_iff_ne, List.mem_cons, List.not_mem_nil,
        or_false, not_or]
      refine ⟨⟨⟨⟨?_, ?_⟩, ?_⟩, ?_⟩, ?_, ?_⟩ <;> rintro rfl <;> cases hd
    rw [hline]
    cases negative with
    | true => exact ⟨'-', d :: text, rfl, rfl, by decide⟩
    | false => exact ⟨d, text, rfl, hdigit⟩
  reads fuel rest hfuel hrest := by
    obtain ⟨fuel, rfl⟩ := Nat.exists_eq_add_one.mpr (Nat.zero_lt_of_lt hfuel)
    have hread := hnumber rest hrest
    rw [hline, List.append_assoc, List.cons_append] at hread ⊢
    rw [value_eq_number hd, hread, hform]

/-- A string is read back. -/
theorem readsBack_string {v : Value} {s : String} (hline : line v = stringText s)
    (hform : form v = .string s) : ReadsBack v where
  opens := by
    rw [hline, toList_stringText]
    exact ⟨'"', _, rfl, rfl, by decide⟩
  reads fuel rest hfuel _ := by
    obtain ⟨fuel, rfl⟩ := Nat.exists_eq_add_one.mpr (Nat.zero_lt_of_lt hfuel)
    rw [hline, hform, toList_stringText, List.cons_append, List.append_assoc, List.singleton_append,
      value, stringBody_text]
    dsimp only
    rw [String.ofList_toList]

/-! ## Lists and objects -/

theorem skipSpace_cons {c : Char} (hc : isGap c = false) (rest : List Char) :
    skipSpace (c :: rest) = c :: rest :=
  List.dropWhile_cons_of_neg (by simp [hc])

theorem skipSpace_space (rest : List Char) : skipSpace (' ' :: rest) = skipSpace rest := rfl

theorem OpensValue.append {text : List Char} (h : OpensValue text) (rest : List Char) :
    OpensValue (text ++ rest) := by
  obtain ⟨c, tail, rfl, hc⟩ := h
  exact ⟨c, tail ++ rest, rfl, hc⟩

/-- A list of texts opens as the first of them does. -/
theorem opensValue_intercalate {text : List Char} (h : OpensValue text)
    (texts : List (List Char)) : OpensValue ([',', ' '].intercalate (text :: texts)) := by
  cases texts with
  | nil => rwa [List.intercalate_singleton]
  | cons t ts =>
    rw [List.intercalate_cons_cons, List.append_assoc]
    exact h.append _

theorem intercalate_map_cons_cons {α : Type} (f : α → List Char) (a b : α) (l : List α) :
    [',', ' '].intercalate ((a :: b :: l).map f) =
      f a ++ ',' :: ' ' :: [',', ' '].intercalate ((b :: l).map f) := by
  rw [List.map_cons, List.map_cons, List.intercalate_cons_cons, List.append_assoc]
  rfl

theorem endsValue_cons {c : Char} (h : c ∈ [',', ']', '\x7d']) (rest : List Char) :
    EndsValue (c :: rest) := by
  rintro d ⟨⟩
  exact forall_mem_of_all (P := fun c => c.isDigit = false ∧ c ≠ '.' ∧ c ≠ 'e' ∧ c ≠ 'E')
    (by decide) c h

/-- **Items with commas between them are read back**, by induction on the items; the last one has
none after it. -/
theorem items_lines {vs : List Value} (hne : vs ≠ []) (h : ∀ v ∈ vs, ReadsBack v)
    (rest : List Char) :
    ∀ fuel, ([',', ' '].intercalate (vs.map fun v => (line v).toList)).length + 1 < fuel →
      items fuel ([',', ' '].intercalate (vs.map fun v => (line v).toList) ++ ']' :: rest) =
        .ok (vs.map form, rest) := by
  induction vs with
  | nil => exact absurd rfl hne
  | cons v vs ih =>
    intro fuel hfuel
    obtain ⟨hv, hvs⟩ := List.forall_mem_cons.mp h
    obtain ⟨fuel, rfl⟩ := Nat.exists_eq_add_one.mpr (Nat.zero_lt_of_lt hfuel)
    cases vs with
    | nil =>
      rw [List.map_singleton, List.intercalate_singleton] at hfuel ⊢
      rw [items, hv.reads fuel _ (by omega) (endsValue_cons (by decide) rest)]
      dsimp only
      rw [skipSpace_cons rfl]
      rfl
    | cons w ws =>
      have hopens : OpensValue ([',', ' '].intercalate ((w :: ws).map fun v => (line v).toList)) :=
        opensValue_intercalate (hvs w List.mem_cons_self).opens _
      rw [intercalate_map_cons_cons, List.length_append, List.length_cons,
        List.length_cons] at hfuel
      rw [intercalate_map_cons_cons, List.append_assoc, List.cons_append, List.cons_append, items,
        hv.reads fuel _ (by omega) (endsValue_cons (by decide) _)]
      dsimp only
      rw [skipSpace_cons rfl]
      change Except.map _ (items fuel (skipSpace (' ' :: _))) = _
      rw [skipSpace_space, hopens.skipSpace, ih (List.cons_ne_nil _ _) hvs fuel (by omega)]
      rfl

/-- The text of an entry. -/
def entryText (e : String × Value) : List Char :=
  (stringText e.1).toList ++ ':' :: ' ' :: (line e.2).toList

/-- An entry under a new key comes last. -/
theorem insert_of_fresh {k : String} {v : Value} {es : List (Value × Value)}
    (h : ∀ e ∈ es, e.1 ≠ .string k) : Value.insert es (.string k) v = es ++ [(.string k, v)] := by
  induction es with
  | nil => rfl
  | cons e es ih =>
    obtain ⟨he, hes⟩ := List.forall_mem_cons.mp h
    rw [Value.insert, sameKey_string, if_neg (mt isString_iff.mp he), ih hes, List.cons_append]

/-- What is read after an entry: the end of the object, or another entry. -/
def entriesAfter (fuel : ℕ) (sofar : List (Value × Value)) :
    List Char → Except ReadError (List (Value × Value) × List Char)
  | '\x7d' :: after => .ok (sofar, after)
  | ',' :: more => entries fuel (skipSpace more) sofar
  | _ => .error .malformed

/-- An entry is read, and then what comes after it. -/
theorem entries_entryText {e : String × Value} (h : ReadsBack e.2) {fuel : ℕ} {rest : List Char}
    (hfuel : (entryText e).length < fuel + 1) (hrest : EndsValue rest)
    (sofar : List (Value × Value)) :
    entries (fuel + 1) (entryText e ++ rest) sofar =
      entriesAfter fuel (Value.insert sofar (.string e.1) (form e.2)) (skipSpace rest) := by
  have hlength : (line e.2).toList.length < fuel := by
    rw [entryText, List.length_append, List.length_cons, List.length_cons] at hfuel
    omega
  rw [entryText, toList_stringText, List.cons_append, List.cons_append, List.append_assoc,
    List.append_assoc, List.singleton_append, entries, stringBody_text]
  simp only [List.cons_append, skipSpace_cons (c := ':') rfl]
  rw [skipSpace_space, h.opens.skipSpace, h.reads fuel rest hlength hrest]
  simp only [String.ofList_toList]
  rfl

/-- Entries with commas between them are read back, if no key comes twice. -/
theorem entries_entryTexts {es : List (String × Value)} (hne : es ≠ [])
    (h : ∀ e ∈ es, ReadsBack e.2) (hkeys : (es.map Prod.fst).Nodup) (rest : List Char) :
    ∀ fuel sofar, (∀ e ∈ es, ∀ p ∈ sofar, p.1 ≠ .string e.1) →
      ([',', ' '].intercalate (es.map entryText)).length + 1 < fuel →
      entries fuel ([',', ' '].intercalate (es.map entryText) ++ '\x7d' :: rest) sofar =
        .ok (sofar ++ es.map fun (k, v) => (.string k, form v), rest) := by
  induction es with
  | nil => exact absurd rfl hne
  | cons e es ih =>
    intro fuel sofar hfresh hfuel
    obtain ⟨he, hes⟩ := List.forall_mem_cons.mp h
    obtain ⟨hfresh, hothers⟩ := List.forall_mem_cons.mp hfresh
    obtain ⟨hnew, hkeys⟩ := List.nodup_cons.mp hkeys
    obtain ⟨fuel, rfl⟩ := Nat.exists_eq_add_one.mpr (Nat.zero_lt_of_lt hfuel)
    have hinsert := insert_of_fresh (v := form e.2) hfresh
    cases es with
    | nil =>
      rw [List.map_singleton, List.intercalate_singleton] at hfuel ⊢
      rw [entries_entryText he (by omega) (endsValue_cons (by decide) rest), skipSpace_cons rfl,
        entriesAfter, hinsert]
      rfl
    | cons f fs =>
      have hopens : OpensValue ([',', ' '].intercalate ((f :: fs).map entryText)) := by
        refine opensValue_intercalate ?_ _
        rw [entryText, toList_stringText]
        exact ⟨'"', _, rfl, rfl, by decide⟩
      rw [intercalate_map_cons_cons, List.length_append, List.length_cons,
        List.length_cons] at hfuel
      rw [intercalate_map_cons_cons, List.append_assoc, List.cons_append, List.cons_append,
        entries_entryText he (by omega) (endsValue_cons (by decide) _), skipSpace_cons rfl]
      rw [entriesAfter, skipSpace_space, hopens.skipSpace, hinsert,
        ih (List.cons_ne_nil _ _) hes hkeys fuel]
      · rw [List.append_assoc]
        rfl
      · intro g hg p hp
        obtain hp | hp := List.mem_append.mp hp
        · exact hothers g hg p hp
        · rw [List.mem_singleton.mp hp]
          intro heq
          exact hnew (Value.string.inj heq ▸ List.mem_map_of_mem hg)
      · omega

theorem toList_line_list (vs : List Value) : (line (.list vs)).toList =
    '[' :: ([',', ' '].intercalate (vs.map fun v => (line v).toList) ++ [']']) := by
  have hcomma : ", ".toList = [',', ' '] := rfl
  have hopen : "[".toList = ['['] := rfl
  have hclose : "]".toList = [']'] := rfl
  rw [line, lines_eq_map, String.toList_append, String.toList_append, String.toList_intercalate,
    List.map_map, hcomma, hopen, hclose, List.append_assoc]
  rfl

/-- A list is read back if its items are. -/
theorem readsBack_list {vs : List Value} (h : ∀ v ∈ vs, ReadsBack v) : ReadsBack (.list vs) where
  opens := by
    rw [toList_line_list]
    exact ⟨'[', _, rfl, rfl, by decide⟩
  reads fuel rest hfuel _ := by
    obtain ⟨fuel, rfl⟩ := Nat.exists_eq_add_one.mpr (Nat.zero_lt_of_lt hfuel)
    rw [toList_line_list, List.length_cons, List.length_append, List.length_singleton] at hfuel
    rw [toList_line_list, List.cons_append, List.append_assoc, form, forms_eq_map, value]
    cases vs with
    | nil => rfl
    | cons v vs =>
      have hopens : OpensValue ([',', ' '].intercalate ((v :: vs).map fun v => (line v).toList)) :=
        opensValue_intercalate (h v List.mem_cons_self).opens _
      rw [hopens.skipSpace, List.singleton_append]
      split
      · next heq =>
        obtain ⟨c, text, htext, -, hc⟩ := hopens
        rw [htext] at heq
        obtain ⟨rfl, -⟩ := List.cons.inj heq
        exact absurd hc (by decide)
      · rw [items_lines (List.cons_ne_nil v vs) h rest fuel (by omega)]
        rfl

/-- A pair is written as a list of two. -/
theorem line_pair (a b : Value) : line (.pair a b) = line (.list [a, b]) := by
  refine String.toList_injective ?_
  rw [toList_line_list, intercalate_map_cons_cons, List.map_singleton, List.intercalate_singleton]
  simp [line]

theorem readsBack_pair {a b : Value} (ha : ReadsBack a) (hb : ReadsBack b) :
    ReadsBack (.pair a b) := by
  have hlist : ReadsBack (.list [a, b]) :=
    readsBack_list (List.forall_mem_cons.mpr ⟨ha, List.forall_mem_singleton.mpr hb⟩)
  exact ⟨line_pair a b ▸ hlist.opens, line_pair a b ▸ hlist.reads⟩

theorem toList_line_object (es : List (Value × Value)) : (line (.object es)).toList =
    '\x7b' :: ([',', ' '].intercalate ((sortEntries (keyed es)).map entryText) ++ ['\x7d']) := by
  have hcomma : ", ".toList = [',', ' '] := rfl
  have hcolon : ": ".toList = [':', ' '] := rfl
  have hopen : "\x7b".toList = ['\x7b'] := rfl
  have hclose : "\x7d".toList = ['\x7d'] := rfl
  have hentry (e : String × Value) :
      (stringText e.1 ++ ": " ++ line e.2).toList = entryText e := by
    rw [String.toList_append, String.toList_append, hcolon, List.append_assoc]
    rfl
  rw [line, entryLines_eq_map, objectText, sortEntries_map, String.toList_append,
    String.toList_append, String.toList_intercalate, List.map_map, List.map_map, hcomma, hopen,
    hclose, List.append_assoc]
  simp only [Function.comp_def, hentry]
  rfl

theorem form_object (es : List (Value × Value)) : form (.object es) =
    .object ((sortEntries (keyed es)).map fun (k, v) => (.string k, form v)) := by
  rw [form, entryForms_eq_map, sortEntries_map, List.map_map]
  rfl

/-- An object is read back if its entries are, in the order of their keys. -/
theorem readsBack_object {es : List (Value × Value)} (h : ∀ e ∈ keyed es, ReadsBack e.2)
    (hkeys : ((keyed es).map Prod.fst).Nodup) : ReadsBack (.object es) where
  opens := by
    rw [toList_line_object]
    exact ⟨'\x7b', _, rfl, rfl, by decide⟩
  reads fuel rest hfuel _ := by
    have hperm := sortEntries_perm (keyed es)
    obtain ⟨fuel, rfl⟩ := Nat.exists_eq_add_one.mpr (Nat.zero_lt_of_lt hfuel)
    rw [toList_line_object, List.length_cons, List.length_append, List.length_singleton] at hfuel
    rw [toList_line_object, List.cons_append, List.append_assoc, form_object, value]
    replace h : ∀ e ∈ sortEntries (keyed es), ReadsBack e.2 := fun e he => h e (hperm.subset he)
    replace hkeys := (hperm.map Prod.fst).nodup_iff.mpr hkeys
    generalize sortEntries (keyed es) = sorted at *
    cases sorted with
    | nil => rfl
    | cons e es' =>
      have hquote : OpensValue (entryText e) := by
        rw [entryText, toList_stringText]
        exact ⟨'"', _, rfl, rfl, by decide⟩
      have hopens : OpensValue ([',', ' '].intercalate ((e :: es').map entryText)) :=
        opensValue_intercalate hquote _
      rw [hopens.skipSpace, List.singleton_append]
      split
      · next heq =>
        obtain ⟨c, text, htext, -, hc⟩ := hopens
        rw [htext] at heq
        obtain ⟨rfl, -⟩ := List.cons.inj heq
        exact absurd hc (by decide)
      · rw [entries_entryTexts (List.cons_ne_nil e es') h hkeys rest fuel []
          (fun _ _ => List.forall_mem_nil _) (by omega)]
        rfl

theorem line_int (n : Int) : (line (.int n)).toList =
    signText (n < 0) ++ Nat.toDigits 10 n.natAbs := toList_toString n

/-- An integer is read back if it may be written. -/
theorem readsBack_int {n : Int} (h : Fits (.int n)) : ReadsBack (.int n) := by
  obtain ⟨d, text, hdigits⟩ := List.exists_cons_of_ne_nil (isWhole_toDigits n.natAbs).ne_nil
  have hd : d.isDigit := isDigit_toDigits n.natAbs d (hdigits ▸ List.mem_cons_self)
  have hcount : (Nat.toDigits 10 n.natAbs).length ≤ digitLimit := by
    rw [Fits, fits, decide_eq_true_iff] at h
    exact h
  exact readsBack_of_number (by rw [line_int, hdigits]) hd rfl fun rest hrest =>
    number_integer hcount hrest

/-- A number is read back: its shortest digits round to it. -/
theorem readsBack_finite {negative : Bool} {m : ℕ} {e : ℤ} (h : IsNumber m e) :
    ReadsBack (.float (.finite negative m e)) := by
  obtain ⟨text, whole, fraction, powerText, power, htext, hparts⟩ :=
    exists_parts .json negative m e
  obtain ⟨d, ds, hwhole⟩ := List.exists_cons_of_ne_nil hparts.isWhole.ne_nil
  have hd : d.isDigit := hparts.isWhole.digits d (hwhole ▸ List.mem_cons_self)
  rw [hparts.text_eq, hwhole, List.cons_append] at htext
  exact readsBack_of_number htext hd rfl fun rest hrest => number_text .json h hrest negative

/-- An entry under a string. -/
def underString (e : String × Value) : Value × Value := (.string e.1, e.2)

/-- Keys that are strings are their own texts. -/
theorem map_keyed : {es : List (Value × Value)} → EntriesProper es →
    (keyed es).map underString = es
  | [], _ => rfl
  | (k, v) :: es, h => by
    obtain ⟨⟨s, rfl⟩, -, hes⟩ := h
    exact congrArg ((Value.string s, v) :: ·) (map_keyed hes)

/-- The keys of a proper object stay apart as texts. -/
theorem nodup_keyed {es : List (Value × Value)} (h : IsProper (.object es)) :
    ((keyed es).map Prod.fst).Nodup := by
  have hkeys := h.1
  rw [← map_keyed h.2, List.map_map] at hkeys
  refine List.Nodup.of_map Value.string ?_
  rwa [List.map_map]

mutual
/-- A value is read from its line. -/
theorem readsBack : (v : Value) → IsProper v → Fits v → ReadsBack v
  | .null, _, _ =>
    readsBack_of_word rfl rfl ⟨'n', _, rfl, rfl, by decide⟩ fun _ _ => rfl
  | .bool true, _, _ =>
    readsBack_of_word rfl rfl ⟨'t', _, rfl, rfl, by decide⟩ fun _ _ => rfl
  | .bool false, _, _ =>
    readsBack_of_word rfl rfl ⟨'f', _, rfl, rfl, by decide⟩ fun _ _ => rfl
  | .int _, _, hfits => readsBack_int hfits
  | .float .nan, _, _ =>
    readsBack_of_word rfl rfl ⟨'N', _, rfl, rfl, by decide⟩ fun _ _ => rfl
  | .float (.infinite false), _, _ =>
    readsBack_of_word rfl rfl ⟨'I', _, rfl, rfl, by decide⟩ fun _ _ => rfl
  | .float (.infinite true), _, _ =>
    readsBack_of_word rfl rfl ⟨'-', _, rfl, rfl, by decide⟩ fun _ _ => rfl
  | .float (.finite _ _ _), hproper, _ => readsBack_finite hproper
  | .string _, _, _ => readsBack_string rfl rfl
  | .list vs, hproper, hfits => readsBack_list (readsBack_all vs hproper hfits)
  | .object es, hproper, hfits =>
    readsBack_object (List.forall_mem_map.mpr (readsBack_entries es hproper.2 hfits))
      (nodup_keyed hproper)
  | .pair a b, hproper, hfits => by
    rw [Fits, fits, Bool.and_eq_true] at hfits
    exact readsBack_pair (readsBack a hproper.1 hfits.1) (readsBack b hproper.2 hfits.2)
  | .day _, _, _ => readsBack_string rfl rfl
  | .moment _, _, _ => readsBack_string rfl rfl
  | .bytes _, _, _ => readsBack_string rfl rfl
  | .set _, _, _ => readsBack_string rfl rfl

theorem readsBack_all : (vs : List Value) → AreProper vs → allFit vs → ∀ v ∈ vs, ReadsBack v
  | [], _, _ => nofun
  | v :: vs, hproper, hfits => by
    rw [allFit, Bool.and_eq_true] at hfits
    exact List.forall_mem_cons.mpr
      ⟨readsBack v hproper.1 hfits.1, readsBack_all vs hproper.2 hfits.2⟩

theorem readsBack_entries : (es : List (Value × Value)) → EntriesProper es → entriesFit es →
    ∀ e ∈ es, ReadsBack e.2
  | [], _, _ => nofun
  | (k, v) :: es, hproper, hfits => by
    rw [entriesFit, Bool.and_eq_true, Bool.and_eq_true] at hfits
    exact List.forall_mem_cons.mpr
      ⟨readsBack v hproper.2.1 hfits.1.2, readsBack_entries es hproper.2.2 hfits.2⟩
end

/-- **A value is read from its line**, with white space after it or none, in the form that JSON has
for it. -/
theorem read_line {v : Value} (hproper : IsProper v) (hfits : Fits v) {gap : String}
    (hgap : ∀ c ∈ gap.toList, isGap c) : read (line v ++ gap) = .ok (form v) := by
  have hback := readsBack v hproper hfits
  have hskip : skipSpace gap.toList = [] := List.dropWhile_eq_nil_iff.mpr hgap
  have hends : EndsValue gap.toList := endsValue_of_skipSpace (by rw [hskip]; nofun)
  have hlength : (line v).toList.length < (line v ++ gap).toList.length + 1 := by
    rw [String.toList_append, List.length_append]
    omega
  rw [String.toList_append] at hlength
  rw [read, String.toList_append]
  rw [hback.opens.skipSpace, hback.reads _ _ hlength hends]
  simp only [hskip, List.isEmpty_nil, if_true]

/-! ## Entries of objects -/

theorem lookup_eq_some {es : List (Value × Value)} (h : (es.map Prod.fst).Nodup) {key : String}
    {v : Value} : lookup key es = some v ↔ (.string key, v) ∈ es :=
  ⟨mem_of_lookup, lookup_of_mem <|
    (List.pairwise_map.mp h).imp fun hne he he' => hne (he.trans he'.symm)⟩

theorem lookup_underString {es : List (String × Value)} (h : (es.map Prod.fst).Nodup) {key : String}
    {v : Value} : lookup key (es.map underString) = some v ↔ (key, v) ∈ es := by
  have hkeys : ((es.map underString).map Prod.fst).Nodup := by
    have hstrings := h.map fun _ _ => Value.string.inj
    rw [List.map_map] at hstrings ⊢
    exact hstrings
  have hinj : Function.Injective underString := fun e f heq =>
    Prod.ext (Value.string.inj (Prod.mk.inj heq).1) (Prod.mk.inj heq).2
  rw [lookup_eq_some hkeys]
  exact List.mem_map_of_injective hinj (a := (key, v))

/-- **Nothing is lost under a key**: what is found there is what was written there, in its form. -/
theorem lookup_form {es : List (Value × Value)} (h : IsProper (.object es)) :
    ∃ fs, form (.object es) = .object fs ∧
      ∀ key, lookup key fs = (lookup key es).map form := by
  have hperm := sortEntries_perm (keyed es)
  have hform : (sortEntries (keyed es)).map (fun (k, v) => (Value.string k, form v)) =
      ((sortEntries (keyed es)).map fun (k, v) => (k, form v)).map underString := by
    rw [List.map_map]
    rfl
  have hkeys : (((sortEntries (keyed es)).map fun (k, v) => (k, form v)).map Prod.fst).Nodup := by
    rw [List.map_map]
    exact (hperm.map Prod.fst).nodup_iff.mpr (nodup_keyed h)
  refine ⟨_, form_object es, fun key => Option.ext fun w => ?_⟩
  conv_rhs => rw [← map_keyed h.2]
  rw [hform, lookup_underString hkeys, Option.map_eq_some_iff]
  simp only [lookup_underString (nodup_keyed h), List.mem_map, hperm.mem_iff, Prod.exists,
    Prod.mk.injEq]
  exact ⟨fun ⟨k, v, hmem, hk, hv⟩ => ⟨v, hk ▸ hmem, hv⟩,
    fun ⟨v, hmem, hv⟩ => ⟨key, v, hmem, rfl, hv⟩⟩

/-! ## One line -/

/-- A printable character of the seven-bit code. -/
def IsPlain (c : Char) : Prop := 0x20 ≤ c.toNat ∧ c.toNat ≤ 0x7E

instance (c : Char) : Decidable (IsPlain c) := inferInstanceAs (Decidable (_ ∧ _))

theorem isPlain_of_isDigit {c : Char} (h : c.isDigit) : IsPlain c := by
  simp only [Char.isDigit, Bool.and_eq_true, decide_eq_true_eq] at h
  have hlow : '0'.toNat ≤ c.toNat := h.1
  have hhigh : c.toNat ≤ '9'.toNat := h.2
  have h0 : '0'.toNat = 48 := rfl
  have h9 : '9'.toNat = 57 := rfl
  constructor <;> omega

theorem isPlain_digitChar (n : ℕ) : ∀ c ∈ Nat.toDigits 16 n, IsPlain c := by
  have hdigit : ∀ d < 16, IsPlain (Nat.digitChar d) := by decide
  induction n using Nat.strongRecOn with
  | ind n ih =>
    rw [Nat.toDigits_eq_if (by decide)]
    split
    · next h => exact List.forall_mem_singleton.mpr (hdigit n h)
    · next h =>
      exact List.forall_mem_append.mpr ⟨ih (n / 16) (by omega),
        List.forall_mem_singleton.mpr (hdigit _ (Nat.mod_lt n (by decide)))⟩

theorem isPlain_unitEscape (n : ℕ) : ∀ c ∈ unitEscape n, IsPlain c := by
  rw [unitEscape, hexPadded]
  refine List.forall_mem_cons.mpr ⟨by decide, List.forall_mem_cons.mpr ⟨by decide, ?_⟩⟩
  exact List.forall_mem_append.mpr ⟨fun c hc => List.eq_of_mem_replicate hc ▸ by decide,
    isPlain_digitChar n⟩

/-- A character is written with plain ones, by its escape if it is none. -/
theorem isPlain_charText (c : Char) : ∀ d ∈ charText c, IsPlain d := by
  rw [charText]
  repeat' split
  all_goals first
    | exact forall_mem_of_all (by decide)
    | exact isPlain_unitEscape _
    | exact List.forall_mem_singleton.mpr ‹_›
    | exact List.forall_mem_append.mpr ⟨isPlain_unitEscape _, isPlain_unitEscape _⟩

/-- A string is written with plain characters. -/
theorem isPlain_stringText (s : String) : ∀ c ∈ (stringText s).toList, IsPlain c := by
  rw [toList_stringText]
  refine List.forall_mem_cons.mpr ⟨by decide, List.forall_mem_append.mpr ⟨?_, ?_⟩⟩
  case refine_2 => exact List.forall_mem_singleton.mpr (by decide)
  intro c hc
  obtain ⟨d, -, hc⟩ := List.mem_flatMap.mp hc
  exact isPlain_charText d c hc

theorem isPlain_signText (negative : Bool) : ∀ c ∈ signText negative, IsPlain c := by
  cases negative <;> exact forall_mem_of_all (by decide)

/-- So is a number. -/
theorem HasParts.isPlain {text whole fraction powerText : List Char} {d : Decimal}
    {power : Option Int} (h : HasParts text d whole fraction powerText power) :
    ∀ c ∈ text, IsPlain c := by
  have hfraction : ∀ c ∈ fractionText fraction, IsPlain c := by
    have hdigits : ∀ c ∈ fraction, IsPlain c := fun c hc => isPlain_of_isDigit (h.isDigit c hc)
    cases fraction with
    | nil => nofun
    | cons d ds => exact List.forall_mem_cons.mpr ⟨by decide, hdigits⟩
  have hmarks : ∀ c ∈ ['e', '+', '-'], IsPlain c := forall_mem_of_all (by decide)
  have hpower : ∀ c ∈ powerText, IsPlain c := fun c hc =>
    (h.marks c hc).elim isPlain_of_isDigit (hmarks c)
  rw [h.text_eq]
  exact List.forall_mem_append.mpr ⟨fun c hc => isPlain_of_isDigit (h.isWhole.digits c hc),
    List.forall_mem_append.mpr ⟨hfraction, hpower⟩⟩

theorem isPlain_intercalate {texts : List (List Char)} (h : ∀ text ∈ texts, ∀ c ∈ text, IsPlain c) :
    ∀ c ∈ [',', ' '].intercalate texts, IsPlain c := by
  induction texts with
  | nil => nofun
  | cons text texts ih =>
    obtain ⟨htext, htexts⟩ := List.forall_mem_cons.mp h
    cases texts with
    | nil => rwa [List.intercalate_singleton]
    | cons t ts =>
      rw [List.intercalate_cons_cons]
      exact List.forall_mem_append.mpr
        ⟨List.forall_mem_append.mpr ⟨htext, forall_mem_of_all (by decide)⟩, ih htexts⟩

theorem isPlain_brackets {a b : Char} (ha : IsPlain a) (hb : IsPlain b) {text : List Char}
    (h : ∀ c ∈ text, IsPlain c) : ∀ c ∈ a :: (text ++ [b]), IsPlain c :=
  List.forall_mem_cons.mpr
    ⟨ha, List.forall_mem_append.mpr ⟨h, List.forall_mem_singleton.mpr hb⟩⟩

/-- So is an object, if its entries are. -/
theorem isPlain_object {es : List (Value × Value)}
    (h : ∀ e ∈ es, ∀ c ∈ (line e.2).toList, IsPlain c) :
    ∀ c ∈ (line (.object es)).toList, IsPlain c := by
  rw [toList_line_object]
  refine isPlain_brackets (by decide) (by decide) (isPlain_intercalate (List.forall_mem_map.mpr ?_))
  intro e he
  obtain ⟨⟨k, v⟩, hmem, rfl⟩ := List.mem_map.mp ((sortEntries_perm (keyed es)).subset he)
  refine List.forall_mem_append.mpr ⟨isPlain_stringText _, ?_⟩
  exact List.forall_mem_cons.mpr ⟨by decide, List.forall_mem_cons.mpr ⟨by decide, h (k, v) hmem⟩⟩

mutual
/-- **All characters of a line are printable ones of the seven-bit code**, so it is one line. -/
theorem isPlain_line : (v : Value) → ∀ c ∈ (line v).toList, IsPlain c
  | .null => forall_mem_of_all (by decide)
  | .bool true => forall_mem_of_all (by decide)
  | .bool false => forall_mem_of_all (by decide)
  | .int n => by
    rw [line_int]
    exact List.forall_mem_append.mpr ⟨isPlain_signText _, fun c hc =>
      isPlain_of_isDigit (isDigit_toDigits _ c hc)⟩
  | .float .nan => forall_mem_of_all (by decide)
  | .float (.infinite true) => forall_mem_of_all (by decide)
  | .float (.infinite false) => forall_mem_of_all (by decide)
  | .float (.finite negative m e) => by
    obtain ⟨text, whole, fraction, powerText, power, htext, hparts⟩ :=
      exists_parts .json negative m e
    rw [line, htext]
    exact List.forall_mem_append.mpr ⟨isPlain_signText _, hparts.isPlain⟩
  | .string s => isPlain_stringText s
  | .list vs => by
    rw [toList_line_list]
    exact isPlain_brackets (by decide) (by decide)
      (isPlain_intercalate (List.forall_mem_map.mpr (isPlain_lines vs)))
  | .object es => isPlain_object (isPlain_entryLines es)
  | .pair a b => by
    rw [line_pair, toList_line_list]
    exact isPlain_brackets (by decide) (by decide) (isPlain_intercalate (List.forall_mem_map.mpr
      (List.forall_mem_cons.mpr ⟨isPlain_line a, List.forall_mem_singleton.mpr (isPlain_line b)⟩)))
  | .day _ => isPlain_stringText _
  | .moment _ => isPlain_stringText _
  | .bytes _ => isPlain_stringText _
  | .set _ => isPlain_stringText _

theorem isPlain_lines : (vs : List Value) → ∀ v ∈ vs, ∀ c ∈ (line v).toList, IsPlain c
  | [] => nofun
  | v :: vs => List.forall_mem_cons.mpr ⟨isPlain_line v, isPlain_lines vs⟩

theorem isPlain_entryLines :
    (es : List (Value × Value)) → ∀ e ∈ es, ∀ c ∈ (line e.2).toList, IsPlain c
  | [] => nofun
  | (_, v) :: es => List.forall_mem_cons.mpr ⟨isPlain_line v, isPlain_entryLines es⟩
end

end TypeCatalog.Json
