import TypeCatalog.Proofs.Generation.EnumMode
import TypeCatalog.Proofs.Syntax.Key

/-!
# Proofs/Syntax/EnumerationValues — the values of an enumeration, read back from its declaration

The literal of a member stands for its representation if and only if the representation can be
quoted as it is (`Constant.denotes_literal_iff`): the representation is put between quotes and not
escaped.  In a union, the two truth values stand bare and stand for themselves.

If all representations can be quoted, the declaration is read as an enumeration in one way only, and
the values are those of its members in their order (`enumeration_values`).
-/

namespace TypeCatalog

open Syntax

/-! ## Literals -/

/-- What a literal stands for. -/
inductive Constant where
  | text (value : String)
  | truth (value : Bool)
  deriving DecidableEq, Repr

/-- A literal, with what it stands for. -/
inductive Denotes : String → Constant → Prop
  | true : Denotes "true" (.truth .true)
  | false : Denotes "false" (.truth .false)
  | text {literal value : String} : IsStringLiteral literal value → Denotes literal (.text value)

namespace Constant

/-- The literal that is written for a value: a text between quotes, without escapes. -/
def literal : Constant → String
  | text value => quote value
  | truth .true => "true"
  | truth .false => "false"

/-- Whether a value can be written as it is. -/
def isQuotable : Constant → Bool
  | text value => Syntax.isQuotable value
  | truth _ => .true

/-- **What is written for a value stands for it if and only if the value can be written so.** -/
theorem denotes_literal_iff {c : Constant} : Denotes c.literal c ↔ c.isQuotable := by
  cases c with
  | text value =>
    rw [literal, isQuotable, ← isStringLiteral_quote_iff]
    generalize quote value = l
    refine ⟨fun h => ?_, .text⟩
    cases h with
    | text hliteral => exact hliteral
  | truth b =>
    refine iff_of_true ?_ rfl
    cases b with
    | true => exact .true
    | false => exact .false

end Constant

/-- No literal starts as another one does. -/
theorem quote_ne_word {word : String} (h : word ∈ ["true", "false"]) (text rest rest' : String) :
    quote text ++ rest ≠ word ++ rest' := by
  intro heq
  have hchars := congrArg String.toList heq
  simp only [List.mem_cons, List.not_mem_nil, or_false] at h
  obtain rfl | rfl := h <;> simp [toList_quote] at hchars

/-- **Where a value is written as it is, nothing else is read.** -/
theorem Denotes.unique {literal rest rest' : String} {v c : Constant} (h : Denotes literal v)
    (hc : c.isQuotable) (heq : literal ++ rest = c.literal ++ rest') : v = c ∧ rest = rest' := by
  have hwords (rest rest' : String) : "true" ++ rest ≠ "false" ++ rest' := ne_of_differ (by decide)
  cases h with
  | true =>
    match c with
    | .text value => exact absurd heq.symm (quote_ne_word (by decide) _ _ _)
    | .truth .true => exact ⟨rfl, (String.append_right_inj _).mp heq⟩
    | .truth .false => exact absurd heq (hwords _ _)
  | false =>
    match c with
    | .text value => exact absurd heq.symm (quote_ne_word (by decide) _ _ _)
    | .truth .true => exact absurd heq.symm (hwords _ _)
    | .truth .false => exact ⟨rfl, (String.append_right_inj _).mp heq⟩
  | text hliteral =>
    match c with
    | .text value =>
      obtain ⟨-, rfl, hrest⟩ := hliteral.unique hc heq
      exact ⟨rfl, hrest⟩
    | .truth .true =>
      obtain ⟨body, rfl, -⟩ := hliteral
      exact absurd heq (quote_ne_word (by decide) _ _ _)
    | .truth .false =>
      obtain ⟨body, rfl, -⟩ := hliteral
      exact absurd heq (quote_ne_word (by decide) _ _ _)

/-! ## Members -/

namespace Member

/-- What the literal of a member is to stand for: its representation, except for the two truth
values in a union. -/
def constant (p : Profile) (m : Member) : Constant :=
  if p.enumAsUnion ∧ m.representation = "true" then .truth true
  else if p.enumAsUnion ∧ m.representation = "false" then .truth false
  else .text m.representation

/-- The literal that is written for a member. -/
def literal (p : Profile) (m : Member) : String :=
  if p.enumAsUnion then TypeCatalog.literal m.representation else quote m.representation

variable (p : Profile) (m : Member)

theorem literal_eq : m.literal p = (m.constant p).literal := by
  rw [literal, constant, TypeCatalog.literal]
  cases p.enumAsUnion with
  | false => simp [Constant.literal]
  | true =>
    by_cases htrue : m.representation = "true"
    · simp [htrue, Constant.literal]
    · by_cases hfalse : m.representation = "false"
      · simp [hfalse, Constant.literal]
      · simp [htrue, hfalse, Constant.literal, quote]

theorem isQuotable_constant : (m.constant p).isQuotable = isQuotable m.representation := by
  rw [constant]
  split
  · rename_i htrue
    rw [htrue.2]
    rfl
  · split
    · rename_i hfalse
      rw [hfalse.2]
      rfl
    · rfl

theorem line_eq_literal (h : p.enumAsUnion = false) :
    m.line = "    " ++ memberKey m.name ++ " = " ++ m.literal p ++ "," := by
  rw [line_eq, literal, h, if_neg Bool.false_ne_true, ← String.append_assoc]

end Member

/-! ## Declarations, as they are read -/

/-- The members of a block, one a line, up to the closing brace. -/
inductive ReadsConstants : String → List Constant → Prop
  | nil : ReadsConstants "  \x7d" []
  | cons {key name literal rest : String} {v : Constant} {vs : List Constant} : IsKey key name →
      Denotes literal v → ReadsConstants rest vs →
      ReadsConstants ("    " ++ key ++ " = " ++ literal ++ ",\n" ++ rest) (v :: vs)

/-- An enumeration, in either of its forms, with the values of its members. -/
inductive ReadsEnumeration : String → List Constant → Prop
  | block {name text : String} {vs : List Constant} : isIdentifierName name →
      ReadsConstants text vs → ReadsEnumeration ("  export enum " ++ name ++ " \x7b\n" ++ text) vs
  | union {name : String} {literals : List String} {vs : List Constant} : isIdentifierName name →
      List.Forall₂ Denotes literals vs →
      ReadsEnumeration ("  export type " ++ name ++ " = " ++ " | ".intercalate literals) vs

/-- The text of an enumeration, with the literals of its members. -/
def enumerationText (p : Profile) (name : String) (members : List Member) : String :=
  if p.enumAsUnion then
    "  export type " ++ name ++ " = " ++ " | ".intercalate (members.map (Member.literal p))
  else "\n".intercalate (["  export enum " ++ name ++ " \x7b"] ++
    members.map (fun m => "    " ++ memberKey m.name ++ " = " ++ m.literal p ++ ",") ++ ["  \x7d"])

/-- An enumeration is written with the literals of its members. -/
theorem declares_enumerationText (p : Profile) (name : String) (members : List Member) :
    Declares p (.enumeration name members) (enumerationText p name members) := by
  have htext : enumerationText p name members = DeclarationTree.text
      (if p.enumAsUnion then .literals name (members.map (·.representation))
        else .enumeration name members) := by
    rw [enumerationText, DeclarationTree.text]
    cases hmode : p.enumAsUnion with
    | true =>
      have hliterals : members.map (Member.literal p) =
          (members.map (·.representation)).map literal := by
        simp [Member.literal, hmode]
      rw [if_pos rfl, if_pos rfl, DeclarationTree.lines, hliterals, String.intercalate_singleton]
    | false =>
      have hlines : members.map Member.line =
          members.map fun m => "    " ++ memberKey m.name ++ " = " ++ m.literal p ++ "," :=
        List.map_congr_left fun m _ => m.line_eq_literal p hmode
      rw [if_neg Bool.false_ne_true, if_neg Bool.false_ne_true, DeclarationTree.lines, hlines]
  rw [htext]
  exact Resolves.declares rfl

/-! ## One reading only -/

theorem Denotes.ne_empty {literal : String} {v : Constant} (h : Denotes literal v) :
    literal ≠ "" := by
  cases h with
  | true => decide
  | false => decide
  | text hliteral =>
    obtain ⟨body, rfl, -⟩ := hliteral
    intro hempty
    simpa [toList_quote] using congrArg String.toList hempty

/-- Literals behind another one, each set off by a bar. -/
def furtherLiterals : List String → String
  | [] => ""
  | l :: rest => " | " ++ l ++ furtherLiterals rest

theorem intercalate_cons_eq (l : String) (rest : List String) :
    " | ".intercalate (l :: rest) = l ++ furtherLiterals rest := by
  induction rest generalizing l with
  | nil => rw [String.intercalate_singleton, furtherLiterals, String.append_empty]
  | cons second rest ih =>
    rw [String.intercalate_cons_cons, ih, furtherLiterals]
    simp only [String.append_assoc]

theorem eq_of_furtherLiterals {literals : List String} {vs cs : List Constant}
    (h : List.Forall₂ Denotes literals vs) (hcs : ∀ c ∈ cs, c.isQuotable)
    (heq : furtherLiterals literals = furtherLiterals (cs.map Constant.literal)) : vs = cs := by
  have hne (text : String) : "" ≠ " | " ++ text := fun h => by simpa using congrArg String.toList h
  induction h generalizing cs with
  | nil =>
    cases cs with
    | nil => rfl
    | cons c cs =>
      rw [List.map_cons, furtherLiterals, furtherLiterals, String.append_assoc] at heq
      exact absurd heq (hne _)
  | cons hliteral _ ih =>
    cases cs with
    | nil =>
      rw [List.map_nil, furtherLiterals, furtherLiterals, String.append_assoc] at heq
      exact absurd heq.symm (hne _)
    | cons c cs =>
      obtain ⟨hc, htail⟩ := List.forall_mem_cons.mp hcs
      simp only [List.map_cons, furtherLiterals, String.append_assoc,
        String.append_right_inj] at heq
      obtain ⟨rfl, hrest⟩ := hliteral.unique hc heq
      exact congrArg _ (ih htail hrest)

/-- Literals with bars between them are read in one way only. -/
theorem eq_of_intercalate_literals {literals : List String} {vs cs : List Constant}
    (h : List.Forall₂ Denotes literals vs) (hcs : ∀ c ∈ cs, c.isQuotable)
    (heq : " | ".intercalate literals = " | ".intercalate (cs.map Constant.literal)) :
    vs = cs := by
  have hwritten : ∀ c ∈ cs, c.literal ≠ "" :=
    fun c hc => (Constant.denotes_literal_iff.mpr (hcs c hc)).ne_empty
  cases h with
  | nil =>
    cases cs with
    | nil => rfl
    | cons c cs =>
      rw [List.map_cons, intercalate_cons_eq, String.intercalate_nil] at heq
      exact absurd (String.append_eq_empty_iff.mp heq.symm).1 (hwritten c List.mem_cons_self)
  | cons hliteral hrest =>
    cases cs with
    | nil =>
      rw [List.map_nil, intercalate_cons_eq, String.intercalate_nil] at heq
      exact absurd (String.append_eq_empty_iff.mp heq).1 hliteral.ne_empty
    | cons c cs =>
      obtain ⟨hc, htail⟩ := List.forall_mem_cons.mp hcs
      rw [List.map_cons, intercalate_cons_eq, intercalate_cons_eq] at heq
      obtain ⟨rfl, hafter⟩ := hliteral.unique hc heq
      exact congrArg _ (eq_of_furtherLiterals hrest htail hafter)

/-- The members of a block and its closing brace. -/
def constantsText (p : Profile) : List Member → String
  | [] => "  \x7d"
  | m :: rest =>
    "    " ++ memberKey m.name ++ " = " ++ m.literal p ++ ",\n" ++ constantsText p rest

theorem constantsText_eq (p : Profile) (start : String) (members : List Member) :
    "\n".intercalate ([start] ++ members.map (fun m => "    " ++ memberKey m.name ++ " = " ++
      m.literal p ++ ",") ++ ["  \x7d"]) = start ++ "\n" ++ constantsText p members := by
  induction members generalizing start with
  | nil => rfl
  | cons m members ih =>
    rw [List.map_cons, List.append_assoc, List.singleton_append, List.cons_append,
      String.intercalate_cons_cons, ← List.singleton_append, ← List.append_assoc, ih, constantsText]
    simp only [String.append_assoc]
    rfl

/-- The members of a block are read in one way only. -/
theorem ReadsConstants.eq {p : Profile} {members : List Member} {vs : List Constant}
    (hnames : ∀ m ∈ members, hasKey m.name)
    (hmembers : ∀ m ∈ members, isQuotable m.representation)
    (h : ReadsConstants (constantsText p members) vs) : vs = members.map (Member.constant p) := by
  have hne (text : String) : "  \x7d" ≠ "    " ++ text :=
    fun h => by simpa using congrArg String.toList h
  induction members generalizing vs with
  | nil =>
    generalize htext : constantsText p [] = text at h
    cases h with
    | nil => rfl
    | cons =>
      simp only [constantsText, String.append_assoc] at htext
      exact absurd htext (hne _)
  | cons m members ih =>
    obtain ⟨hname, hnames⟩ := List.forall_mem_cons.mp hnames
    obtain ⟨hm, hmembers⟩ := List.forall_mem_cons.mp hmembers
    generalize htext : constantsText p (m :: members) = text at h
    simp only [constantsText, String.append_assoc] at htext
    cases h with
    | nil => exact absurd htext.symm (hne _)
    | @cons key name literal rest v vs hkey hliteral hrest =>
      simp only [String.append_assoc, String.append_right_inj] at htext
      obtain ⟨-, hafter⟩ := hkey.unique hname (.of_start rfl (by decide) _)
        (.of_start rfl (by decide) _) htext.symm
      rw [m.literal_eq] at hafter
      obtain ⟨rfl, hafter⟩ := hliteral.unique (by rwa [m.isQuotable_constant])
        ((String.append_right_inj _).mp hafter)
      rw [(String.append_right_inj _).mp hafter] at hrest
      rw [ih hnames hmembers hrest, List.map_cons]

theorem readsConstants_constantsText {p : Profile} {members : List Member}
    (hnames : ∀ m ∈ members, hasKey m.name)
    (hmembers : ∀ m ∈ members, isQuotable m.representation) :
    ReadsConstants (constantsText p members) (members.map (Member.constant p)) := by
  induction members with
  | nil => exact .nil
  | cons m members ih =>
    obtain ⟨hname, hnames⟩ := List.forall_mem_cons.mp hnames
    obtain ⟨hm, hmembers⟩ := List.forall_mem_cons.mp hmembers
    refine .cons (isKey_memberKey_iff.mpr hname) ?_ (ih hnames hmembers)
    rw [m.literal_eq, Constant.denotes_literal_iff, m.isQuotable_constant]
    exact hm

/-- Names of enumerations stand before a space, which ends them. -/
theorem readsEnumeration_union_iff {name : String} {cs vs : List Constant}
    (hname : isIdentifierName name) (hcs : ∀ c ∈ cs, c.isQuotable) :
    ReadsEnumeration ("  export type " ++ name ++ " = " ++
      " | ".intercalate (cs.map Constant.literal)) vs ↔ vs = cs := by
  constructor
  · generalize htext : "  export type " ++ name ++ " = " ++ _ = text
    intro h
    simp only [String.append_assoc] at htext
    cases h with
    | block =>
      simp only [String.append_assoc] at htext
      exact absurd htext (ne_of_differ (by decide))
    | union hname' hliterals =>
      simp only [String.append_assoc, String.append_right_inj] at htext
      obtain ⟨-, hafter⟩ := identifierName_append_inj hname hname' (.of_start rfl (by decide) _)
        (.of_start rfl (by decide) _) htext
      exact eq_of_intercalate_literals hliterals hcs ((String.append_right_inj _).mp hafter).symm
  · rintro rfl
    refine .union hname ?_
    rw [List.forall₂_map_left_iff, List.forall₂_same]
    exact fun c hc => Constant.denotes_literal_iff.mpr (hcs c hc)

theorem readsEnumeration_block_iff {p : Profile} {name : String} {members : List Member}
    {vs : List Constant} (hname : isIdentifierName name) (hnames : ∀ m ∈ members, hasKey m.name)
    (hmembers : ∀ m ∈ members, isQuotable m.representation) :
    ReadsEnumeration ("  export enum " ++ name ++ " \x7b\n" ++ constantsText p members) vs ↔
      vs = members.map (Member.constant p) := by
  constructor
  · generalize htext : "  export enum " ++ name ++ " \x7b\n" ++ _ = text
    intro h
    simp only [String.append_assoc] at htext
    cases h with
    | block hname' hconstants =>
      simp only [String.append_assoc, String.append_right_inj] at htext
      obtain ⟨-, hafter⟩ := identifierName_append_inj hname hname' (.of_start rfl (by decide) _)
        (.of_start rfl (by decide) _) htext
      rw [← (String.append_right_inj _).mp hafter] at hconstants
      exact hconstants.eq hnames hmembers
    | union =>
      simp only [String.append_assoc] at htext
      exact absurd htext (ne_of_differ (by decide))
  · rintro rfl
    exact .block hname (readsConstants_constantsText hnames hmembers)

/-- **What the declaration of an enumeration tells about its values.**  It is written with the
literals of the members; each literal stands for the representation of its member, or for a truth
value, if and only if the representation can be quoted as it is.  If all can, and the names can be
read, the declaration is read in one way only, with these values in the order of the members. -/
theorem enumeration_values (p : Profile) (name : String) (members : List Member) :
    Declares p (.enumeration name members) (enumerationText p name members) ∧
    (∀ m ∈ members, Denotes (m.literal p) (m.constant p) ↔ isQuotable m.representation) ∧
    (isIdentifierName name → (p.enumAsUnion = false → ∀ m ∈ members, hasKey m.name) →
      (∀ m ∈ members, isQuotable m.representation) →
      ∀ vs, ReadsEnumeration (enumerationText p name members) vs ↔
        vs = members.map (Member.constant p)) := by
  refine ⟨declares_enumerationText p name members, fun m _ => ?_,
    fun hname hnames hmembers vs => ?_⟩
  · rw [m.literal_eq, Constant.denotes_literal_iff, m.isQuotable_constant]
  · rw [enumerationText]
    cases hmode : p.enumAsUnion with
    | true =>
      have hliterals : members.map (Member.literal p) =
          (members.map (Member.constant p)).map Constant.literal := by
        rw [List.map_map]
        exact List.map_congr_left fun m _ => m.literal_eq p
      rw [if_pos rfl, hliterals]
      refine readsEnumeration_union_iff hname (List.forall_mem_map.mpr fun m hm => ?_)
      rw [m.isQuotable_constant]
      exact hmembers m hm
    | false =>
      rw [if_neg Bool.false_ne_true, constantsText_eq]
      have hstart : "  export enum " ++ name ++ " \x7b" ++ "\n" =
          "  export enum " ++ name ++ " \x7b\n" := String.append_assoc
      rw [hstart]
      exact readsEnumeration_block_iff hname (hnames hmode) hmembers

/-- A union of a truth value and a text. -/
theorem dynamic_values : ∀ vs, ReadsEnumeration
    (enumerationText { enumAsUnion := true } "Dynamic" [⟨"true", "true"⟩, ⟨"strict", "strict"⟩])
      vs ↔ vs = [.truth true, .text "strict"] :=
  (enumeration_values { enumAsUnion := true } "Dynamic"
    [⟨"true", "true"⟩, ⟨"strict", "strict"⟩]).2.2 (by decide +kernel) nofun (by decide)

/-- Quotes, backslashes and line feeds are not escaped, in either form: the literals do not stand
for such representations, and two enumerations can have the same declaration. -/
theorem unkept_representations :
    (∀ b, ∀ r ∈ ["say \"hi\"", "C:\\new", "a\nb"],
      ¬ Denotes (Member.literal (Profile.inMode {} b) ⟨"a", r⟩) (.text r)) ∧
    ∃ text, Declares { enumAsUnion := true } (.enumeration "E" [⟨"a", "x\" | \"y"⟩]) text ∧
      Declares { enumAsUnion := true } (.enumeration "E" [⟨"a", "x"⟩, ⟨"b", "y"⟩]) text := by
  constructor
  · intro b r hr
    have hvalue : ∀ b, ∀ r ∈ ["say \"hi\"", "C:\\new", "a\nb"],
        Member.literal (Profile.inMode {} b) ⟨"a", r⟩ = (Constant.text r).literal ∧
          (Constant.text r).isQuotable = false := by decide
    obtain ⟨hliteral, hunfit⟩ := hvalue b r hr
    rw [hliteral, Constant.denotes_literal_iff, hunfit]
    exact Bool.false_ne_true
  · exact ⟨_, declares_enumerationText _ _ _, declares_enumerationText _ _ _⟩

end TypeCatalog
