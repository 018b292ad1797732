import TypeCatalog.Proofs.Syntax.Grammar
import TypeCatalog.Text.CodeUnit

/-!
# Proofs/Syntax/StringLiteral — what a text between quotes stands for

A string literal stands for a sequence of sixteen-bit code units.  Between its quotes a character
stands for its own units, unless it is a quote, a backslash or the end of a line; a backslash starts
an escape (`IsEscape`).  `SpellsOut` relates what stands between the quotes to the units.

An escape takes up more units than it stands for.  So a text stands for itself between quotes if and
only if it can be quoted as it is (`isStringLiteral_quote_iff`), and no other literal is read where
such a text is quoted (`IsStringLiteral.unique`).
-/

namespace TypeCatalog.Syntax

open TypeCatalog.Text

/-! ## Code units -/

/-- The code units of a code point: one, or the two halves of a pair. -/
def pointUnits (n : Nat) : List Nat :=
  if n < 0x10000 then [n] else [0xD800 + (n - 0x10000) / 0x400, 0xDC00 + (n - 0x10000) % 0x400]

/-- The code units of a text. -/
def codeUnits (text : List Char) : List Nat := text.flatMap fun c => pointUnits c.toNat

theorem codeUnits_cons (c : Char) (text : List Char) :
    codeUnits (c :: text) = pointUnits c.toNat ++ codeUnits text := List.flatMap_cons

theorem length_pointUnits_pos (n : Nat) : 0 < (pointUnits n).length := by
  rw [pointUnits]
  split <;> simp

theorem length_pointUnits_le (n : Nat) : (pointUnits n).length ≤ 2 := by
  rw [pointUnits]
  split <;> simp

theorem codeUnits_cons_ne_nil (c : Char) (text : List Char) : codeUnits (c :: text) ≠ [] := by
  rw [codeUnits_cons]
  exact List.append_ne_nil_of_left_ne_nil (List.ne_nil_of_length_pos (length_pointUnits_pos _)) _

/-- The units of a character can be told from what follows them. -/
theorem pointUnits_append_inj {c d : Char} {us vs : List Nat}
    (h : pointUnits c.toNat ++ us = pointUnits d.toNat ++ vs) : c = d ∧ us = vs := by
  have hvalid (c : Char) : c.toNat < 0xD800 ∨ 0xDFFF < c.toNat ∧ c.toNat < 0x110000 := c.valid
  have hc := hvalid c
  have hd := hvalid d
  have hnumbers : c.toNat = d.toNat ∧ us = vs := by
    simp only [pointUnits] at h
    split at h <;> split at h <;> simp only [List.cons_append, List.nil_append, List.cons.injEq] at h
    · exact h
    -- A unit that stands alone is no half of a pair.
    · omega
    · omega
    · exact ⟨by omega, h.2.2⟩
  exact ⟨Char.toNat_inj.mp hnumbers.1, hnumbers.2⟩

/-- **Texts with the same code units are the same.** -/
theorem codeUnits_injective : Function.Injective codeUnits := by
  intro text text' h
  induction text generalizing text' with
  | nil =>
    cases text' with
    | nil => rfl
    | cons d text' => exact absurd h.symm (codeUnits_cons_ne_nil d text')
  | cons c text ih =>
    cases text' with
    | nil => exact absurd h (codeUnits_cons_ne_nil c text)
    | cons d text' =>
      rw [codeUnits_cons, codeUnits_cons] at h
      obtain ⟨rfl, hrest⟩ := pointUnits_append_inj h
      rw [ih hrest]

/-! ## Escapes -/

/-- The control characters that a letter behind a backslash stands for. -/
def controlLetters : List (Char × Nat) :=
  [('b', 0x08), ('t', 0x09), ('n', 0x0A), ('v', 0x0B), ('f', 0x0C), ('r', 0x0D)]

/-- The ends of a line. Behind a backslash they stand for nothing. -/
def lineEnds : List (List Char) := [['\n'], ['\r'], ['\r', '\n'], ['\u2028'], ['\u2029']]

/-- Whether a character behind a backslash stands for itself: it has no other meaning there. -/
def escapesItself (c : Char) : Bool := !"btnvfrux0123456789\n\r\u2028\u2029".toList.contains c

/-- What may follow a backslash, with the code units that it stands for. -/
inductive IsEscape : List Char → List Nat → Prop
  | control {c : Char} {n : Nat} : (c, n) ∈ controlLetters → IsEscape [c] [n]
  | self {c : Char} : escapesItself c → IsEscape [c] (pointUnits c.toNat)
  | lineEnd {cs : List Char} : cs ∈ lineEnds → IsEscape cs []
  | byte {a b : Char} {n : Nat} : hexNumber? [a, b] = some n → IsEscape ['x', a, b] [n]
  | unit {a b c d : Char} {n : Nat} : hexNumber? [a, b, c, d] = some n →
      IsEscape ['u', a, b, c, d] [n]
  | point {digits : List Char} {n : Nat} : digits ≠ [] → hexNumber? digits = some n →
      n < 0x110000 → IsEscape ('u' :: '\x7b' :: digits ++ ['\x7d']) (pointUnits n)

/-- Whether a character between quotes stands for itself. -/
def isQuotableChar (c : Char) : Bool := c != '"' && c != '\\' && c != '\n' && c != '\r'

/-- What stands between the quotes of a literal, with the code units that it stands for. -/
inductive SpellsOut : List Char → List Nat → Prop
  | nil : SpellsOut [] []
  | char {c : Char} {text : List Char} {us : List Nat} : isQuotableChar c → SpellsOut text us →
      SpellsOut (c :: text) (pointUnits c.toNat ++ us)
  /-- A zero is an escape of its own if no digit follows it. -/
  | null {text : List Char} {us : List Nat} : (∀ c ∈ text.head?, c.isDigit = false) →
      SpellsOut text us → SpellsOut ('\\' :: '0' :: text) (0 :: us)
  | escape {cs text : List Char} {us vs : List Nat} : IsEscape cs us → SpellsOut text vs →
      SpellsOut ('\\' :: (cs ++ text)) (us ++ vs)

/-! ## What stands for itself -/

theorem length_codeUnits_append (text text' : List Char) :
    (codeUnits (text ++ text')).length = (codeUnits text).length + (codeUnits text').length := by
  rw [codeUnits, List.flatMap_append, List.length_append]
  rfl

theorem length_le_codeUnits (text : List Char) : text.length ≤ (codeUnits text).length := by
  induction text with
  | nil => exact Nat.le_refl 0
  | cons c text ih =>
    have := length_pointUnits_pos c.toNat
    rw [codeUnits_cons, List.length_append, List.length_cons]
    omega

/-- An escape stands for no more units than it takes up without its backslash. -/
theorem IsEscape.length_le {cs : List Char} {us : List Nat} (h : IsEscape cs us) :
    us.length ≤ (codeUnits cs).length := by
  cases h with
  | @control c n _ => exact length_le_codeUnits [c]
  | self => rw [codeUnits, List.flatMap_singleton]
  | lineEnd => exact Nat.zero_le _
  | byte | unit => exact Nat.le_trans (by simp) (length_le_codeUnits _)
  | @point digits n =>
    refine Nat.le_trans (length_pointUnits_le n) (Nat.le_trans ?_ (length_le_codeUnits _))
    simp

/-- What is spelled out takes up no fewer units than it stands for, and more if it has a
backslash. -/
theorem SpellsOut.length_le {text : List Char} {us : List Nat} (h : SpellsOut text us) :
    us.length ≤ (codeUnits text).length ∧
      ('\\' ∈ text → us.length < (codeUnits text).length) := by
  induction h with
  | nil => exact ⟨Nat.le_refl 0, nofun⟩
  | @char c text us hc _ ih =>
    have hne : '\\' ≠ c := by
      rintro rfl
      exact absurd hc (by decide)
    obtain ⟨hle, hlt⟩ := ih
    rw [codeUnits_cons, List.length_append, List.length_append]
    refine ⟨by omega, fun hmem => ?_⟩
    have := hlt (List.mem_of_ne_of_mem hne hmem)
    omega
  | @null text us _ _ ih =>
    have hslash := length_pointUnits_pos '\\'.toNat
    have hzero := length_pointUnits_pos '0'.toNat
    rw [codeUnits_cons, codeUnits_cons, List.length_append, List.length_append, List.length_cons]
    omega
  | @escape cs text us vs hescape _ ih =>
    have hslash := length_pointUnits_pos '\\'.toNat
    have hle := hescape.length_le
    rw [codeUnits_cons, List.length_append, List.length_append, length_codeUnits_append]
    omega

/-- Without a backslash, only characters that stand for themselves are spelled out. -/
theorem SpellsOut.isQuotableChar {text : List Char} {us : List Nat} (h : SpellsOut text us)
    (hplain : '\\' ∉ text) : ∀ c ∈ text, isQuotableChar c := by
  induction h with
  | nil => exact nofun
  | char hc _ ih => exact List.forall_mem_cons.mpr ⟨hc, ih (List.not_mem_of_not_mem_cons hplain)⟩
  | null => exact absurd List.mem_cons_self hplain
  | escape => exact absurd List.mem_cons_self hplain

theorem spellsOut_codeUnits {text : List Char} (h : ∀ c ∈ text, isQuotableChar c) :
    SpellsOut text (codeUnits text) := by
  induction text with
  | nil => exact .nil
  | cons c text ih =>
    obtain ⟨hc, htext⟩ := List.forall_mem_cons.mp h
    exact .char hc (ih htext)

/-- **A text stands for itself exactly if each of its characters does.** -/
theorem spellsOut_codeUnits_iff {text : List Char} :
    SpellsOut text (codeUnits text) ↔ ∀ c ∈ text, isQuotableChar c := by
  refine ⟨fun h => h.isQuotableChar fun hslash => ?_, spellsOut_codeUnits⟩
  exact absurd (h.length_le.2 hslash) (Nat.lt_irrefl _)

/-- A text that stands for itself has no backslash before its closing quote. -/
theorem backslash_ne_quoted {name : List Char} (h : ∀ c ∈ name, isQuotableChar c)
    (text rest : List Char) : '\\' :: text ≠ name ++ '"' :: rest := by
  intro heq
  cases name with
  | nil => cases heq
  | cons c name =>
    obtain ⟨rfl, -⟩ := List.cons.inj heq
    exact absurd (h _ List.mem_cons_self) (by decide)

/-- Where a text that stands for itself is quoted, nothing else is spelled out up to a quote. -/
theorem SpellsOut.unique {text name rest rest' : List Char} {us : List Nat}
    (h : SpellsOut text us) (hname : ∀ c ∈ name, Syntax.isQuotableChar c)
    (heq : text ++ '"' :: rest = name ++ '"' :: rest') :
    text = name ∧ us = codeUnits name ∧ rest = rest' := by
  induction h generalizing name with
  | nil =>
    cases name with
    | nil => exact ⟨rfl, rfl, (List.cons.inj heq).2⟩
    | cons c name =>
      obtain ⟨rfl, -⟩ := List.cons.inj heq
      exact absurd (hname _ List.mem_cons_self) (by decide)
  | @char c text us hc _ ih =>
    cases name with
    | nil =>
      obtain ⟨rfl, -⟩ := List.cons.inj heq
      exact absurd hc (by decide)
    | cons d name =>
      obtain ⟨rfl, htail⟩ := List.cons.inj heq
      obtain ⟨rfl, rfl, hrest⟩ := ih (List.forall_mem_cons.mp hname).2 htail
      exact ⟨rfl, rfl, hrest⟩
  | null => exact absurd heq (backslash_ne_quoted hname _ _)
  | escape => exact absurd heq (backslash_ne_quoted hname _ _)

/-! ## Literals -/

/-- A text between quotes, as it is. -/
def quote (text : String) : String := "\"" ++ text ++ "\""

theorem toList_quote (text : String) : (quote text).toList = '"' :: (text.toList ++ ['"']) := by
  simp [quote]

/-- A string literal, with the text that it stands for. -/
def IsStringLiteral (literal value : String) : Prop :=
  ∃ body, literal = quote body ∧ SpellsOut body.toList (codeUnits value.toList)

/-- **Between quotes a text stands for itself if and only if it can be quoted as it is.** -/
theorem isStringLiteral_quote_iff {text : String} :
    IsStringLiteral (quote text) text ↔ isQuotable text := by
  rw [isQuotable, List.all_eq_true]
  constructor
  · rintro ⟨body, hliteral, hbody⟩
    have hchars := congrArg String.toList hliteral
    rw [toList_quote, toList_quote] at hchars
    rw [← List.append_cancel_right (List.cons.inj hchars).2] at hbody
    exact spellsOut_codeUnits_iff.mp hbody
  · exact fun h => ⟨text, rfl, spellsOut_codeUnits h⟩

/-- **No other literal is read where a text is quoted that stands for itself.** -/
theorem IsStringLiteral.unique {literal value text rest rest' : String}
    (h : IsStringLiteral literal value) (htext : isQuotable text)
    (heq : literal ++ rest = quote text ++ rest') :
    literal = quote text ∧ value = text ∧ rest = rest' := by
  obtain ⟨body, rfl, hbody⟩ := h
  have hchars := congrArg String.toList heq
  simp only [String.toList_append, toList_quote, List.cons_append, List.append_assoc,
    List.nil_append] at hchars
  obtain ⟨hsame, hunits, hrest⟩ :=
    hbody.unique (List.all_eq_true.mp htext) (List.cons.inj hchars).2
  obtain rfl := String.toList_injective hsame
  exact ⟨rfl, String.toList_injective (codeUnits_injective hunits), String.toList_injective hrest⟩

end TypeCatalog.Syntax
