import TypeCatalog.Declaration.Block
import TypeCatalog.Proofs.Syntax.Lines
import TypeCatalog.Proofs.Syntax.StringLiteral

/-!
# Proofs/Syntax/Key — which keys stand for the names of members

A key is an identifier, in letters of any script, or a string literal (`IsKey`).  The key that is
written for a name stands for it if the name is an identifier where it is written bare, and can be
quoted as it is where it is written between quotes (`hasKey`) — and only then: names are left bare
with other characters behind their first one, and quoted without escapes (`memberKey_readings`).

A key that stands for its name is read in no other way: in front of the mark and the colon of a
member, or of the equals sign of a constant, no other key ends (`IsKey.unique`).
-/

namespace TypeCatalog.Syntax

open TypeCatalog.Text

/-! ## Identifiers in letters of any script -/

/-- The numbers that are no decimal digits: fractions, numbers in circles, Roman numbers. -/
def otherNumbers : CodeRanges :=
  [(0xB2, 0xB3), (0xB9, 0xB9), (0xBC, 0xBE), (0x9F4, 0x9F9), (0xB72, 0xB77), (0xBF0, 0xBF2),
   (0xC78, 0xC7E), (0xD58, 0xD5E), (0xD70, 0xD78), (0xF2A, 0xF33), (0x1369, 0x137C),
   (0x16EE, 0x16F0), (0x17F0, 0x17F9), (0x19DA, 0x19DA), (0x2070, 0x2070), (0x2074, 0x2079),
   (0x2080, 0x2089), (0x2150, 0x2182), (0x2185, 0x2189), (0x2460, 0x249B), (0x24EA, 0x24FF),
   (0x2776, 0x2793), (0x2CFD, 0x2CFD), (0x3007, 0x3007), (0x3021, 0x3029), (0x3038, 0x303A),
   (0x3192, 0x3195), (0x3220, 0x3229), (0x3248, 0x324F), (0x3251, 0x325F), (0x3280, 0x3289),
   (0x32B1, 0x32BF), (0xA6E6, 0xA6EF), (0xA830, 0xA835), (0x10107, 0x10133), (0x10140, 0x10178),
   (0x1018A, 0x1018B), (0x102E1, 0x102FB), (0x10320, 0x10323), (0x10341, 0x10341),
   (0x1034A, 0x1034A), (0x103D1, 0x103D5), (0x10858, 0x1085F), (0x10879, 0x1087F),
   (0x108A7, 0x108AF), (0x108FB, 0x108FF), (0x10916, 0x1091B), (0x109BC, 0x109BD),
   (0x109C0, 0x109CF), (0x109D2, 0x109FF), (0x10A40, 0x10A48), (0x10A7D, 0x10A7E),
   (0x10A9D, 0x10A9F), (0x10AEB, 0x10AEF), (0x10B58, 0x10B5F), (0x10B78, 0x10B7F),
   (0x10BA9, 0x10BAF), (0x10CFA, 0x10CFF), (0x10E60, 0x10E7E), (0x10F1D, 0x10F26),
   (0x10F51, 0x10F54), (0x10FC5, 0x10FCB), (0x11052, 0x11065), (0x111E1, 0x111F4),
   (0x1173A, 0x1173B), (0x118EA, 0x118F2), (0x11C5A, 0x11C6C), (0x11FC0, 0x11FD4),
   (0x12400, 0x1246E), (0x16B5B, 0x16B61), (0x16E80, 0x16E96), (0x1D2E0, 0x1D2F3),
   (0x1D360, 0x1D378), (0x1E8C7, 0x1E8CF), (0x1EC71, 0x1ECAB), (0x1ECAD, 0x1ECAF),
   (0x1ECB1, 0x1ECB4), (0x1ED01, 0x1ED2D), (0x1ED2F, 0x1ED3D), (0x1F100, 0x1F10C)]

/-- Whether a character is a letter of some script. -/
def isLetter (c : Char) : Bool :=
  lettersAndNumbers.contains c && !isDecimalDigit c && !otherNumbers.contains c

/-- Whether an identifier in letters of any script may start with a character. -/
def startsName (c : Char) : Bool := isLetter c || c == '_' || c == '$'

/-- Whether a character may stand in such an identifier. -/
def isNamePart (c : Char) : Bool := startsName c || isDecimalDigit c

/-- Whether a text is an identifier in letters of any script. -/
def isIdentifierName (text : String) : Bool :=
  text.toList.head?.any startsName && text.toList.all isNamePart

example : isIdentifierName "größe_2" ∧ isIdentifierName "$ref" ∧ ¬ isIdentifierName "½" ∧
    ¬ isIdentifierName "a b" ∧ ¬ isIdentifierName "" := by decide +kernel

/-- The characters that end an identifier where one is written: those around keys and names. -/
theorem not_isNamePart {c : Char} (h : c ∈ ['"', '\\', '\n', '\r', ' ', '?', ':']) :
    isNamePart c = false := by
  have hall : ['"', '\\', '\n', '\r', ' ', '?', ':'].all fun c => !isNamePart c := by
    decide +kernel
  simpa using List.all_eq_true.mp hall c h

/-- A character that starts an identifier is a part of it. -/
theorem isNamePart_of_startsName {c : Char} (h : startsName c) : isNamePart c := by
  rw [isNamePart, h, Bool.true_or]

variable {name : String}

theorem isNamePart_of_mem (h : isIdentifierName name) {c : Char} (hc : c ∈ name.toList) :
    isNamePart c :=
  List.all_eq_true.mp (Bool.and_eq_true_iff.mp h).2 c hc

theorem head_of_isIdentifierName (h : isIdentifierName name) :
    ∃ c rest, name.toList = c :: rest ∧ startsName c := by
  obtain ⟨c, hc, hstart⟩ := (Option.any_eq_true _ _).mp (Bool.and_eq_true_iff.mp h).1
  obtain ⟨rest, hrest⟩ := List.head?_eq_some_iff.mp hc
  exact ⟨c, rest, hrest, hstart⟩

/-- What comes after an identifier ends it. -/
def EndsName (rest : String) : Prop := ∀ c ∈ rest.toList.head?, isNamePart c = false

theorem EndsName.of_start {start : String} {c : Char} {cs : List Char}
    (hstart : start.toList = c :: cs) (hc : c ∈ ['"', '\\', '\n', '\r', ' ', '?', ':'])
    (rest : String) : EndsName (start ++ rest) := by
  rw [EndsName, String.toList_append, hstart]
  rintro d ⟨⟩
  exact not_isNamePart hc

/-- An identifier can be told from what ends it. -/
theorem identifierName_append_inj {name' rest rest' : String} (h : isIdentifierName name)
    (h' : isIdentifierName name') (hrest : EndsName rest) (hrest' : EndsName rest')
    (heq : name ++ rest = name' ++ rest') : name = name' ∧ rest = rest' := by
  have hchars := congrArg String.toList heq
  rw [String.toList_append, String.toList_append] at hchars
  obtain ⟨hsame, hafter⟩ := run_inj (fun c => isNamePart_of_mem h) (fun c => isNamePart_of_mem h')
    hrest hrest' hchars
  exact ⟨String.toList_injective hsame, String.toList_injective hafter⟩

/-- An identifier does not start as a literal does. -/
theorem identifierName_ne_quote (h : isIdentifierName name) (text rest rest' : String) :
    name ++ rest ≠ quote text ++ rest' := by
  intro heq
  obtain ⟨c, cs, hc, hstart⟩ := head_of_isIdentifierName h
  have hchars := congrArg String.toList heq
  rw [String.toList_append, String.toList_append, hc, toList_quote] at hchars
  obtain ⟨rfl, -⟩ := List.cons.inj hchars
  exact Bool.false_ne_true ((not_isNamePart (by decide)).symm.trans
    (isNamePart_of_startsName hstart))

/-! ## Keys -/

/-- A key, with the name that it stands for. -/
inductive IsKey : String → String → Prop
  | bare {name : String} : isIdentifierName name → IsKey name name
  | quoted {key name : String} : IsStringLiteral key name → IsKey key name

/-- Whether the key that is written for a name is one: between quotes, if the name can be quoted as
it is; bare, if the name is an identifier. -/
def hasKey (name : String) : Bool :=
  if needsQuotes name then isQuotable name else isIdentifierName name

theorem memberKey_of_needsQuotes (h : needsQuotes name) : memberKey name = quote name := by
  rw [memberKey, if_pos h, quote]

theorem memberKey_of_not_needsQuotes (h : needsQuotes name = false) : memberKey name = name := by
  rw [memberKey, if_neg (by rw [h]; exact Bool.false_ne_true)]

/-- What is written bare does not start with a quote. -/
theorem head?_ne_of_not_needsQuotes (h : needsQuotes name = false) :
    name.toList.head? ≠ some '"' := by
  intro hhead
  have hquote : isWordChar '"' = false := by decide +kernel
  simp [needsQuotes, hhead, hquote] at h

theorem not_isStringLiteral_of_not_needsQuotes (h : needsQuotes name = false) (value : String) :
    ¬ IsStringLiteral name value := by
  rintro ⟨body, rfl, -⟩
  exact head?_ne_of_not_needsQuotes h (congrArg List.head? (toList_quote body))

/-- A text is shorter than what stands for it between quotes. -/
theorem quote_ne (text : String) : quote text ≠ text := by
  intro h
  have hlength := congrArg (List.length ∘ String.toList) h
  simp only [Function.comp_apply, toList_quote, List.length_cons, List.length_append] at hlength
  omega

/-- **The key of a name stands for it if and only if it is an identifier or can be quoted.** -/
theorem isKey_memberKey_iff : IsKey (memberKey name) name ↔ hasKey name := by
  cases hquotes : needsQuotes name with
  | true =>
    rw [hasKey, if_pos hquotes, memberKey_of_needsQuotes hquotes, ← isStringLiteral_quote_iff]
    constructor
    · generalize hkey : quote name = key
      rintro (_ | hliteral)
      · exact absurd hkey (quote_ne _)
      · exact hliteral
    · exact .quoted
  | false =>
    rw [hasKey, hquotes, memberKey_of_not_needsQuotes hquotes]
    constructor
    · rintro (hname | hliteral)
      · exact hname
      · exact absurd hliteral (not_isStringLiteral_of_not_needsQuotes hquotes _)
    · exact .bare

/-- **A key that stands for its name is read in no other way.** -/
theorem IsKey.unique {key name' rest rest' : String} (h : IsKey key name') (hname : hasKey name)
    (hrest : EndsName rest) (hrest' : EndsName rest')
    (heq : key ++ rest = memberKey name ++ rest') : name' = name ∧ rest = rest' := by
  cases hquotes : needsQuotes name with
  | true =>
    rw [hasKey, if_pos hquotes] at hname
    rw [memberKey_of_needsQuotes hquotes] at heq
    cases h with
    | bare hbare => exact absurd heq (identifierName_ne_quote hbare _ _ _)
    | quoted hliteral => exact (hliteral.unique hname heq).2
  | false =>
    rw [hasKey, hquotes] at hname
    rw [memberKey_of_not_needsQuotes hquotes] at heq
    cases h with
    | bare hbare => exact identifierName_append_inj hbare hname hrest hrest' heq
    | quoted hliteral =>
      obtain ⟨body, rfl, -⟩ := hliteral
      exact absurd heq.symm (identifierName_ne_quote hname _ _ _)

/-! ## Members and constants -/

/-- The line of a member, as it is read: its name, whether it is optional, and its type. -/
inductive ReadsMember (indent : String) : String → String → Bool → String → Prop
  | mk {key name : String} (optional : Bool) (type : String) : IsKey key name →
      ReadsMember indent (indent ++ key ++ (if optional then "?" else "") ++ ": " ++ type) name
        optional type

/-- The line of a constant, as it is read: its name, and what it is set to. -/
inductive ReadsConstant : String → String → String → Prop
  | mk {key name : String} (value : String) : IsKey key name →
      ReadsConstant ("    " ++ key ++ " = " ++ value) name value

/-- What stands between the key of a member and its type ends the key. -/
theorem endsName_mark (optional : Bool) (text : String) :
    EndsName ((if optional then "?" else "") ++ (": " ++ text)) := by
  cases optional with
  | true => exact .of_start rfl (by decide) _
  | false =>
    rw [if_neg Bool.false_ne_true, String.empty_append]
    exact .of_start rfl (by decide) _

theorem readsMember_memberLine_iff {q : Property} (h : hasKey q.name) {indent type n t : String}
    {o : Bool} : ReadsMember indent (memberLine indent q type) n o t ↔
      n = q.name ∧ o = q.nullable ∧ t = type := by
  constructor
  · generalize hline : memberLine indent q type = line
    rintro ⟨_, _, hkey⟩
    simp only [memberLine, String.append_assoc, String.append_right_inj] at hline
    obtain ⟨hname, hafter⟩ :=
      hkey.unique h (endsName_mark _ _) (endsName_mark _ _) hline.symm
    exact ⟨hname, mark_inj hafter⟩
  · rintro ⟨rfl, rfl, rfl⟩
    exact .mk _ _ (isKey_memberKey_iff.mpr h)

/-- The line of a constant sets its key to its representation, between quotes. -/
theorem line_eq (m : Member) :
    m.line = "    " ++ memberKey m.name ++ " = " ++ (quote m.representation ++ ",") := by
  refine String.toList_injective ?_
  simp [Member.line, quote]

theorem readsConstant_line_iff {m : Member} (h : hasKey m.name) {n v : String} :
    ReadsConstant m.line n v ↔ n = m.name ∧ v = quote m.representation ++ "," := by
  rw [line_eq]
  constructor
  · generalize hread : "    " ++ memberKey m.name ++ " = " ++ _ = line
    rintro ⟨_, hkey⟩
    simp only [String.append_assoc, String.append_right_inj] at hread
    obtain ⟨hname, hafter⟩ := hkey.unique h (.of_start rfl (by decide) _)
      (.of_start rfl (by decide) _) hread.symm
    exact ⟨hname, (String.append_right_inj _).mp hafter⟩
  · rintro ⟨rfl, rfl⟩
    exact .mk _ (isKey_memberKey_iff.mpr h)

/-- **Which names are kept by their keys.**  The key of a name stands for it if and only if the name
has one; then the lines of members and constants with that key are read as such of that name, and in
no other way. -/
theorem memberKey_readings (name : String) :
    (IsKey (memberKey name) name ↔ hasKey name) ∧
    (hasKey name →
      (∀ q : Property, q.name = name → ∀ indent type n o t,
        ReadsMember indent (memberLine indent q type) n o t ↔
          n = name ∧ o = q.nullable ∧ t = type) ∧
      ∀ m : Member, m.name = name → ∀ n v,
        ReadsConstant m.line n v ↔ n = name ∧ v = quote m.representation ++ ",") := by
  refine ⟨isKey_memberKey_iff, fun h => ⟨?_, ?_⟩⟩
  · rintro q rfl indent type n o t
    exact readsMember_memberLine_iff h
  · rintro m rfl n v
    exact readsConstant_line_iff h

/-- The key of a name with a point, on the line of a member that may be left out. -/
theorem keyword_readings : hasKey "if_seq_no.keyword" ∧ ∀ n o t,
    ReadsMember "    " (memberLine "    " ⟨"if_seq_no.keyword", none, true⟩ "long") n o t ↔
      n = "if_seq_no.keyword" ∧ o = true ∧ t = "long" := by
  have hkey : hasKey "if_seq_no.keyword" := by decide +kernel
  exact ⟨hkey, ((memberKey_readings _).2 hkey).1 _ rfl _ _⟩

/-- A space behind the first character, no character at all, a number that is no digit, a quote and
a backslash between quotes: none of these keys stands for its name, and the last stands for another
one. -/
theorem unkept_names : ¬ IsKey (memberKey "a b") "a b" ∧ ¬ IsKey (memberKey "") "" ∧
    ¬ IsKey (memberKey "½") "½" ∧ ¬ IsKey (memberKey "say-\"hi\"") "say-\"hi\"" ∧
    ¬ IsKey (memberKey ".\\x41") ".\\x41" ∧ IsKey (memberKey ".\\x41") ".A" := by
  have hpoint : IsKey (memberKey ".\\x41") ".A" := by
    rw [memberKey_of_needsQuotes (by decide +kernel)]
    refine .quoted ⟨".\\x41", rfl, .char (by decide) ?_⟩
    exact .escape (.byte (a := '4') (b := '1') rfl) .nil
  refine ⟨?_, ?_, ?_, ?_, ?_, hpoint⟩ <;> rw [isKey_memberKey_iff] <;> decide +kernel

end TypeCatalog.Syntax
