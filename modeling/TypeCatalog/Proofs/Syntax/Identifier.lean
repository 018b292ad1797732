import TypeCatalog.Declaration.MemberKey
import TypeCatalog.Proofs.Layout.Pieces
import TypeCatalog.Proofs.WrittenType.Grammar

/-!
# Proofs/Syntax/Identifier — names that can stand anywhere

An identifier is a letter or an underscore, followed by letters, digits and underscores.  It is a
name in a type and a key without quotes, stands on one line, and ends where a character comes that
is none of these, so it can be told from what follows it (`append_inj`).
-/

namespace TypeCatalog.Syntax

open TypeCatalog.Layout TypeCatalog.Text

/-- Whether an identifier may start with a character. -/
def startsIdentifier (c : Char) : Bool := c.isAlpha || c == '_'

/-- Whether a character may stand in an identifier. -/
def isIdentifierChar (c : Char) : Bool := startsIdentifier c || c.isDigit

/-- Whether a text is an identifier. -/
def isIdentifier (n : String) : Bool :=
  n.toList.head?.any startsIdentifier && n.toList.all isIdentifierChar

/-! ## Characters -/

theorem isNameChar_of_isIdentifierChar {c : Char} (h : isIdentifierChar c) :
    TypeToken.isNameChar c := by
  by_contra hmark
  have hcases : c ∈ [' ', '<', '>', ',', '|', '[', ']'] := by
    simp only [TypeToken.isNameChar, TypeToken.ofMark?] at hmark
    grind
  have hnone : [' ', '<', '>', ',', '|', '[', ']'].all fun c => !isIdentifierChar c := by decide
  simpa [h] using List.all_eq_true.mp hnone c hcases

theorem toNat_of_startsIdentifier {c : Char} (h : startsIdentifier c) :
    c = '_' ∨ 0x41 ≤ c.toNat ∧ c.toNat ≤ 0x5A ∨ 0x61 ≤ c.toNat ∧ c.toNat ≤ 0x7A := by
  obtain hletter | hunderscore := Bool.or_eq_true_iff.mp h
  · change (decide (c.val ≥ 'A'.val ∧ c.val ≤ 'Z'.val) ||
      decide (c.val ≥ 'a'.val) && decide (c.val ≤ 'z'.val)) = true at hletter
    simp only [Bool.or_eq_true, Bool.and_eq_true, decide_eq_true_eq, ge_iff_le,
      UInt32.le_iff_toNat_le] at hletter
    exact .inr hletter
  · exact .inl (eq_of_beq hunderscore)

/-- What starts an identifier is a word character, and no digit of any script. -/
theorem isWordChar_of_startsIdentifier {c : Char} (h : startsIdentifier c) :
    isWordChar c ∧ isDecimalDigit c = false := by
  obtain rfl | hcode := toNat_of_startsIdentifier h
  · decide
  have hdigits : ∀ r ∈ decimalDigits, r.2 ≤ 0x39 ∨ 0x660 ≤ r.1 := by decide
  constructor
  · rw [isWordChar, Bool.or_eq_true]
    refine .inr (List.any_eq_true.mpr ?_)
    obtain hupper | hlower := hcode
    · exact ⟨(0x41, 0x5A), .tail _ (.head _), by simpa using hupper⟩
    · exact ⟨(0x61, 0x7A), .tail _ (.tail _ (.head _)), by simpa using hlower⟩
  · refine List.any_eq_false.mpr fun r hr => ?_
    have := hdigits r hr
    simp only [Bool.and_eq_true, decide_eq_true_eq]
    omega

/-! ## Identifiers -/

variable {n m : String}

theorem isIdentifierChar_of_mem (h : isIdentifier n) {c : Char} (hc : c ∈ n.toList) :
    isIdentifierChar c :=
  List.all_eq_true.mp (Bool.and_eq_true_iff.mp h).2 c hc

theorem head_of_isIdentifier (h : isIdentifier n) :
    ∃ c rest, n.toList = c :: rest ∧ startsIdentifier c := by
  obtain ⟨c, hc, hstart⟩ := (Option.any_eq_true _ _).mp (Bool.and_eq_true_iff.mp h).1
  obtain ⟨rest, hrest⟩ := List.head?_eq_some_iff.mp hc
  exact ⟨c, rest, hrest, hstart⟩

theorem isName_of_isIdentifier (h : isIdentifier n) : TypeToken.isName n := by
  obtain ⟨c, rest, hn, -⟩ := head_of_isIdentifier h
  rw [TypeToken.isName, Bool.and_eq_true, bne_iff_ne]
  constructor
  · rintro rfl
    cases hn
  · exact List.all_eq_true.mpr fun c hc =>
      isNameChar_of_isIdentifierChar (isIdentifierChar_of_mem h hc)

theorem oneLine_of_isIdentifier (h : isIdentifier n) : OneLine n := fun hmem =>
  absurd (isIdentifierChar_of_mem h hmem) (by decide)

/-- An identifier is a key as it stands. -/
theorem memberKey_of_isIdentifier (h : isIdentifier n) : memberKey n = n := by
  have hnot {c : Char} (hc : isIdentifierChar c = false) : c ∉ n.toList := fun hmem =>
    Bool.false_ne_true (hc.symm.trans (isIdentifierChar_of_mem h hmem))
  obtain ⟨c, rest, hn, hstart⟩ := head_of_isIdentifier h
  obtain ⟨hword, hdigit⟩ := isWordChar_of_startsIdentifier hstart
  have hpoint : n.toList.contains '.' = false := by simpa using hnot (c := '.') (by decide)
  have hhyphen : n.toList.contains '-' = false := by simpa using hnot (c := '-') (by decide)
  have hhead : (n.toList.head?.any fun c => isDecimalDigit c || !isWordChar c) = false := by
    simp [hn, hword, hdigit]
  simp only [memberKey, needsQuotes, hpoint, hhyphen, hhead, Bool.or_self, Bool.false_eq_true,
    if_false]

/-- What comes after an identifier ends it. -/
def EndsIdentifier (rest : String) : Prop := ∀ c ∈ rest.toList.head?, isIdentifierChar c = false

theorem EndsIdentifier.of_start {start : String} {c : Char} {cs : List Char}
    (hstart : start.toList = c :: cs) (hc : isIdentifierChar c = false) (rest : String) :
    EndsIdentifier (start ++ rest) := by
  rw [EndsIdentifier, String.toList_append, hstart]
  rintro d ⟨⟩
  exact hc

/-- A longest run can be told from what ends it. -/
theorem run_inj {p : Char → Bool} {run run' rest rest' : List Char} (hrun : ∀ c ∈ run, p c)
    (hrun' : ∀ c ∈ run', p c) (hrest : ∀ c ∈ rest.head?, p c = false)
    (hrest' : ∀ c ∈ rest'.head?, p c = false) (h : run ++ rest = run' ++ rest') :
    run = run' ∧ rest = rest' := by
  have hends {rest : List Char} (hrest : ∀ c ∈ rest.head?, p c = false) :
      rest.takeWhile p = [] := by
    cases rest with
    | nil => rfl
    | cons c rest => simp [hrest c rfl]
  have hsame := congrArg (List.takeWhile p) h
  rw [List.takeWhile_append_of_pos hrun, List.takeWhile_append_of_pos hrun', hends hrest,
    hends hrest', List.append_nil, List.append_nil] at hsame
  subst hsame
  exact ⟨rfl, List.append_cancel_left h⟩

/-- **An identifier can be told from what ends it.** -/
theorem append_inj (hn : isIdentifier n) (hm : isIdentifier m) {a b : String}
    (ha : EndsIdentifier a) (hb : EndsIdentifier b) (h : n ++ a = m ++ b) : n = m ∧ a = b := by
  have hchars := congrArg String.toList h
  rw [String.toList_append, String.toList_append] at hchars
  obtain ⟨hsame, hrest⟩ := run_inj (fun c => isIdentifierChar_of_mem hn)
    (fun c => isIdentifierChar_of_mem hm) ha hb hchars
  exact ⟨String.toList_injective hsame, String.toList_injective hrest⟩

end TypeCatalog.Syntax
