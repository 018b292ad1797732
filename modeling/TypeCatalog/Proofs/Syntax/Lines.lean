import TypeCatalog.Proofs.Syntax.Grammar

/-!
# Proofs/Syntax/Lines — what a line of a declaration tells

A declaration has lines of a few forms (`IsDeclarationLine`), which can be told apart by how they
start.  So a line that looks like an alias, like the line of a member or like the header of an
interface has what these have: the three inversions below are all that is needed to judge a
declaration by its lines.
-/

namespace TypeCatalog.Syntax

open TypeCatalog.Layout

/-- How those lines start that hold no type and no key. -/
def plainStarts : List String := ["  export enum ", "  /**", "   *", "  \x7d", "    \x7d"]

/-- The indentations of lines that start with a key. -/
def keyIndents : List String := ["    ", "      "]

/-- What can follow the key at the start of a line. -/
inductive IsKeyed : String → Prop
  | member {text : String} (optional : Bool) : IsType text →
      IsKeyed ((if optional then "?" else "") ++ (": " ++ text))
  | constant {text : String} : isQuotable text → IsKeyed (" = \"" ++ (text ++ "\","))
  | opening : IsKeyed "?: \x7b"

/-- A line that a declaration can have. -/
inductive IsDeclarationLine : String → Prop
  | typeAlias {name text : String} : isIdentifier name → IsAliased text →
      IsDeclarationLine ("  export type " ++ (name ++ (" = " ++ text)))
  | header {name generics heritage : String} : isIdentifier name → IsGenerics generics →
      IsHeritage heritage →
      IsDeclarationLine ("  export interface " ++ (name ++ (generics ++ (heritage ++ " \x7b"))))
  | keyed {indent key rest : String} : indent ∈ keyIndents → isIdentifier key → IsKeyed rest →
      IsDeclarationLine (indent ++ (key ++ rest))
  | plain {start rest : String} : start ∈ plainStarts → OneLine rest →
      IsDeclarationLine (start ++ rest)

theorem IsDeclarationLine.plain' {l : String} (h : l ∈ plainStarts) : IsDeclarationLine l := by
  rw [← String.append_empty (s := l)]
  exact .plain h (by decide)

theorem IsMember.isDeclarationLine {indent l : String} (hindent : indent ∈ keyIndents)
    (h : IsMember indent l) : IsDeclarationLine l := by
  obtain ⟨optional, hkey, htype⟩ := h
  simp only [String.append_assoc]
  exact .keyed hindent hkey (.member optional htype)

theorem IsConstant.isDeclarationLine {l : String} (h : IsConstant l) : IsDeclarationLine l := by
  obtain ⟨hkey, htext⟩ := h
  simp only [String.append_assoc]
  exact .keyed (show "    " ∈ keyIndents by decide) hkey (.constant htext)

theorem IsHeader.isDeclarationLine {l : String} (h : IsHeader l) : IsDeclarationLine l := by
  obtain ⟨hname, hgenerics, hheritage⟩ := h
  simp only [String.append_assoc]
  exact .header hname hgenerics hheritage

theorem IsComment.forall_line {ls : List String} (h : IsComment ls) :
    ∀ l ∈ ls, IsDeclarationLine l := by
  cases h with
  | none => exact nofun
  | @lines text honeLine _ =>
    have hmiddle : "   * " ++ text = "   *" ++ (" " ++ text) := by
      rw [← String.append_assoc]
      rfl
    simp only [List.forall_mem_cons]
    refine ⟨.plain' (by decide), ?_, ?_, nofun⟩
    · rw [hmiddle]
      exact .plain (by decide) (.append (by decide) honeLine)
    · exact show IsDeclarationLine ("   *" ++ "/") from .plain (by decide) (by decide)

theorem IsMembers.forall_line {ls : List String} (h : IsMembers ls) :
    ∀ l ∈ ls, IsDeclarationLine l := by
  induction h with
  | nil => exact nofun
  | member hline _ ih =>
    exact List.forall_mem_cons.mpr ⟨hline.isDeclarationLine (by decide), ih⟩
  | body hlines _ ih =>
    simp only [List.forall_mem_append, List.forall_mem_singleton]
    refine ⟨⟨⟨?_, fun l hl => (hlines l hl).isDeclarationLine (by decide)⟩, .plain' (by decide)⟩,
      ih⟩
    exact show IsDeclarationLine ("    " ++ ("body" ++ "?: \x7b")) from
      .keyed (by decide) (by decide) .opening

/-- **The lines of a declaration are such lines.** -/
theorem IsDeclaration.forall_line {ls : List String} (h : IsDeclaration ls) :
    ∀ l ∈ ls, IsDeclarationLine l := by
  cases h with
  | typeAlias hname htext =>
    simp only [String.append_assoc]
    exact List.forall_mem_singleton.mpr (.typeAlias hname htext)
  | enumeration hname hlines =>
    simp only [List.forall_mem_append, List.forall_mem_singleton, String.append_assoc]
    exact ⟨⟨.plain (by decide) ((oneLine_of_isIdentifier hname).append (by decide)),
      fun l hl => (hlines l hl).isDeclarationLine⟩, .plain' (by decide)⟩
  | interface hcomment hheader hlines =>
    simp only [List.forall_mem_append, List.forall_mem_singleton]
    exact ⟨⟨⟨hcomment.forall_line, hheader.isDeclarationLine⟩, hlines.forall_line⟩,
      .plain' (by decide)⟩

/-! ## Every declaration is a block -/

theorem oneLine_of_isQuotable {text : String} (h : isQuotable text) : OneLine text := fun hmem =>
  absurd (List.all_eq_true.mp h _ hmem) (by decide)

theorem IsLiteral.oneLine {text : String} (h : IsLiteral text) : OneLine text := by
  cases h with
  | true => decide
  | false => decide
  | quoted htext =>
    exact (OneLine.append (by decide) (oneLine_of_isQuotable htext)).append (by decide)

theorem IsAliased.oneLine {text : String} (h : IsAliased text) : OneLine text := by
  cases h with
  | type h => exact h.1.oneLine
  | literals _ hls => exact .intercalate (by decide) fun l hl => (hls l hl).oneLine

theorem IsGenerics.oneLine {text : String} (h : IsGenerics text) : OneLine text := by
  cases h with
  | none => decide
  | list _ hnames =>
    exact (OneLine.append (by decide) (.intercalate (by decide) fun n hn =>
      oneLine_of_isIdentifier (hnames n hn))).append (by decide)

theorem IsHeritage.oneLine {text : String} (h : IsHeritage text) : OneLine text := by
  cases h with
  | none => decide
  | heads h => exact .append (by decide) h.1.oneLine

theorem IsKeyed.oneLine {rest : String} (h : IsKeyed rest) : OneLine rest := by
  cases h with
  | member optional htype =>
    have hmark : OneLine (if optional then "?" else "") := by split <;> decide
    exact hmark.append (.append (by decide) htype.1.oneLine)
  | constant htext => exact .append (by decide) ((oneLine_of_isQuotable htext).append (by decide))
  | opening => decide

theorem IsDeclarationLine.isLine {l : String} (h : IsDeclarationLine l) : IsLine l := by
  cases h with
  | typeAlias hname htext =>
    exact (show IsLine "  export type " by decide).append ((oneLine_of_isIdentifier hname).append
      (.append (by decide) htext.oneLine))
  | header hname hgenerics hheritage =>
    exact (show IsLine "  export interface " by decide).append
      ((oneLine_of_isIdentifier hname).append (hgenerics.oneLine.append
        (hheritage.oneLine.append (by decide))))
  | keyed hindent hkey hrest =>
    have hindents : ∀ indent ∈ keyIndents, IsLine indent := by decide
    exact (hindents _ hindent).append ((oneLine_of_isIdentifier hkey).append hrest.oneLine)
  | plain hstart hrest =>
    have hstarts : ∀ start ∈ plainStarts, IsLine start := by decide
    exact (hstarts _ hstart).append hrest

theorem IsDeclaration.isBlock {ls : List String} (h : IsDeclaration ls) : IsBlock ls := by
  refine ⟨?_, fun l hl => (h.forall_line l hl).isLine⟩
  cases h with
  | typeAlias => exact List.cons_ne_nil _ _
  | enumeration => simp
  | interface => simp

/-! ## Telling lines apart -/

/-- Two texts differ at a place that both have. -/
def differ (start start' : String) : Bool :=
  (start.toList.zip start'.toList).any fun (c, c') => c != c'

/-- Whatever follows them, they stay different. -/
theorem ne_of_differ {start start' rest rest' : String} (h : differ start start') :
    start ++ rest ≠ start' ++ rest' := by
  intro heq
  obtain ⟨⟨c, c'⟩, hmem, hne⟩ := List.any_eq_true.mp h
  obtain ⟨i, hi⟩ := List.mem_iff_getElem?.mp hmem
  obtain ⟨hc, hc'⟩ := List.getElem?_zip_eq_some.mp hi
  have hleft : (start ++ rest).toList[i]? = some c := by
    rw [String.toList_append, List.getElem?_append_left (List.getElem?_eq_some_iff.mp hc).1, hc]
  have hright : (start' ++ rest').toList[i]? = some c' := by
    rw [String.toList_append, List.getElem?_append_left (List.getElem?_eq_some_iff.mp hc').1, hc']
  rw [heq, hright] at hleft
  exact absurd (Option.some.inj hleft).symm (by simpa using hne)

/-- An identifier is not indented further. -/
theorem ne_indented {key rest rest' : String} (hkey : isIdentifier key) :
    "    " ++ (key ++ rest) ≠ "      " ++ rest' := by
  obtain ⟨c, cs, hc, hstart⟩ := head_of_isIdentifier hkey
  intro h
  obtain ⟨rfl, -⟩ : c = ' ' ∧ _ := by simpa [hc] using congrArg String.toList h
  exact absurd hstart (by decide)

/-- The indentation, the key and the rest of a line can be told apart. -/
theorem keyed_inj {indent indent' key key' rest rest' : String} (hindent : indent ∈ keyIndents)
    (hindent' : indent' ∈ keyIndents) (hkey : isIdentifier key) (hkey' : isIdentifier key')
    (hrest : EndsIdentifier rest) (hrest' : EndsIdentifier rest')
    (h : indent ++ (key ++ rest) = indent' ++ (key' ++ rest')) :
    indent = indent' ∧ key = key' ∧ rest = rest' := by
  have hsame (hi : indent = indent') : indent = indent' ∧ key = key' ∧ rest = rest' :=
    ⟨hi, append_inj hkey hkey' hrest hrest' ((String.append_right_inj _).mp (hi ▸ h))⟩
  simp only [keyIndents, List.mem_cons, List.not_mem_nil, or_false] at hindent hindent'
  obtain ⟨rfl | rfl, rfl | rfl⟩ := And.intro hindent hindent'
  · exact hsame rfl
  · exact absurd h (ne_indented hkey)
  · exact absurd h.symm (ne_indented hkey')
  · exact hsame rfl

/-- A line with a key starts like no other line. -/
theorem keyed_ne {indent key rest start rest' : String} (hindent : indent ∈ keyIndents)
    (hkey : isIdentifier key)
    (hstart : start ∈ "  export type " :: "  export interface " :: plainStarts) :
    indent ++ (key ++ rest) ≠ start ++ rest' := by
  have hdiffer : ∀ indent ∈ keyIndents,
      ∀ start ∈ "  export type " :: "  export interface " :: plainStarts,
        differ indent start ∨ indent = "    " ∧ start = "    \x7d" := by decide
  obtain hne | ⟨rfl, rfl⟩ := hdiffer _ hindent _ hstart
  · exact ne_of_differ hne
  -- The closing brace of a body is indented as a member is, so the key has to decide.
  · intro h
    obtain ⟨c, cs, hc, hstarts⟩ := head_of_isIdentifier hkey
    obtain ⟨rfl, -⟩ : c = '\x7d' ∧ _ := by simpa [hc] using congrArg String.toList h
    exact absurd hstarts (by decide)

/-- **A line that looks like an alias is one.** -/
theorem IsDeclarationLine.isAliased {name text : String} (hname : isIdentifier name)
    (h : IsDeclarationLine ("  export type " ++ name ++ " = " ++ text)) : IsAliased text := by
  simp only [String.append_assoc] at h
  generalize hl : "  export type " ++ (name ++ (" = " ++ text)) = l at h
  cases h with
  | typeAlias hname' htext =>
    obtain ⟨-, htail⟩ := append_inj hname hname' (.of_start rfl (by decide) _)
      (.of_start rfl (by decide) _) ((String.append_right_inj _).mp hl)
    rwa [(String.append_right_inj _).mp htail]
  | header => exact absurd hl (ne_of_differ (by decide))
  | keyed hindent hkey _ => exact absurd hl.symm (keyed_ne hindent hkey (by decide))
  | plain hstart _ =>
    have hdiffer : ∀ start ∈ plainStarts, differ "  export type " start := by decide
    exact absurd hl (ne_of_differ (hdiffer _ hstart))

/-! ## Members -/

/-- What stands between the key of a member and its type ends the key. -/
theorem endsIdentifier_mark (optional : Bool) (text : String) :
    EndsIdentifier ((if optional then "?" else "") ++ (": " ++ text)) := by
  cases optional with
  | true => exact .of_start rfl (by decide) _
  | false =>
    rw [if_neg Bool.false_ne_true, String.empty_append]
    exact .of_start rfl (by decide) _

theorem mark_inj {optional optional' : Bool} {text text' : String}
    (h : (if optional then "?" else "") ++ (": " ++ text) =
      (if optional' then "?" else "") ++ (": " ++ text')) :
    optional = optional' ∧ text = text' := by
  have hchars := congrArg String.toList h
  cases optional <;> cases optional' <;> simp [String.toList_inj] at hchars
  · exact ⟨rfl, hchars⟩
  · exact ⟨rfl, hchars⟩

theorem IsKeyed.endsIdentifier {rest : String} (h : IsKeyed rest) : EndsIdentifier rest := by
  cases h with
  | member optional _ => exact endsIdentifier_mark optional _
  | constant _ => exact .of_start rfl (by decide) _
  | opening => exact show EndsIdentifier ("?" ++ ": \x7b") from .of_start rfl (by decide) _

/-- What looks like the mark and the type of a member is that. -/
theorem IsKeyed.isType {text : String} {optional : Bool} (htext : NamesIdentify text)
    (h : IsKeyed ((if optional then "?" else "") ++ (": " ++ text))) : IsType text := by
  generalize hl : (if optional then "?" else "") ++ (": " ++ text) = l at h
  cases h with
  | member optional' htype =>
    obtain ⟨-, rfl⟩ := mark_inj hl
    exact htype
  | constant _ => cases optional <;> simpa using congrArg String.toList hl
  | opening =>
    have hopens : "?: \x7b" = (if true then "?" else "") ++ (": " ++ "\x7b") := rfl
    obtain ⟨-, rfl⟩ := mark_inj (hl.trans hopens)
    exact absurd (List.mem_singleton_self _) (htext.not_mem (c := '\x7b') (by decide) (by decide))

/-- **A line that looks like a member is one.** -/
theorem IsDeclarationLine.isType {indent key text : String} {optional : Bool}
    (hindent : indent ∈ keyIndents) (hkey : isIdentifier key) (htext : NamesIdentify text)
    (h : IsDeclarationLine
      (indent ++ key ++ (if optional then "?" else "") ++ ": " ++ text)) : IsType text := by
  simp only [String.append_assoc] at h
  generalize hl : indent ++ (key ++ ((if optional then "?" else "") ++ (": " ++ text))) = l at h
  cases h with
  | typeAlias => exact absurd hl (keyed_ne hindent hkey (by decide))
  | header => exact absurd hl (keyed_ne hindent hkey (by decide))
  | keyed hindent' hkey' hrest =>
    obtain ⟨-, -, rfl⟩ := keyed_inj hindent hindent' hkey hkey' (endsIdentifier_mark optional text)
      hrest.endsIdentifier hl
    exact hrest.isType htext
  | plain hstart _ => exact absurd hl (keyed_ne hindent hkey (.tail _ (.tail _ hstart)))

/-! ## Headers -/

/-- The clause of a header: nothing, or a text set off by a space. -/
def IsClause (text : String) : Prop := text = "" ∨ ∃ rest, text = " " ++ rest

theorem IsHeritage.isClause {text : String} (h : IsHeritage text) : IsClause text := by
  cases h with
  | none => exact .inl rfl
  | @heads text _ => exact .inr ⟨"extends " ++ text, by rw [← String.append_assoc]; rfl⟩

/-- A clause and the brace after it start with a space. -/
theorem IsClause.head? {text : String} (h : IsClause text) :
    (text ++ " \x7b").toList.head? = some ' ' := by
  obtain rfl | ⟨rest, rfl⟩ := h <;> simp

/-- Before a clause, generic parameters end the name. -/
theorem IsGenerics.endsIdentifier {generics text : String} (h : IsGenerics generics)
    (htext : IsClause text) : EndsIdentifier (generics ++ (text ++ " \x7b")) := by
  cases h with
  | none =>
    rw [String.empty_append, EndsIdentifier, htext.head?]
    rintro c ⟨⟩
    decide
  | list =>
    rw [String.append_assoc, String.append_assoc]
    exact .of_start rfl (by decide) _

/-- A clause is no list of generic parameters. -/
theorem IsClause.ne_list {text rest : String} (h : IsClause text) :
    text ++ " \x7b" ≠ "<" ++ rest := by
  intro heq
  have hhead := h.head?
  rw [heq] at hhead
  simp at hhead

/-- No identifier holds a bracket. -/
theorem forall_ne_bracket {names : List String} (h : ∀ n ∈ names, isIdentifier n) :
    ∀ c ∈ (", ".intercalate names).toList, c != '>' := by
  have hbracket : '>' ∉ (", ".intercalate names).toList := by
    refine not_mem_intercalate (by decide) fun n hn hmem => ?_
    exact absurd (isIdentifierChar_of_mem (h n hn) hmem) (by decide)
  exact fun c hc => bne_iff_ne.mpr fun heq => hbracket (heq ▸ hc)

/-- Generic parameters can be told from the clause after them. -/
theorem generics_inj {generics generics' text text' : String} (h : IsGenerics generics)
    (h' : IsGenerics generics') (htext : IsClause text) (htext' : IsClause text')
    (heq : generics ++ (text ++ " \x7b") = generics' ++ (text' ++ " \x7b")) : text = text' := by
  refine (String.append_left_inj " \x7b").mp ?_
  cases h with
  | none =>
    rw [String.empty_append] at heq
    cases h' with
    | none => rwa [String.empty_append] at heq
    | list =>
      rw [String.append_assoc, String.append_assoc] at heq
      exact absurd heq htext.ne_list
  | list _ hnames =>
    cases h' with
    | none =>
      rw [String.empty_append, String.append_assoc, String.append_assoc] at heq
      exact absurd heq.symm htext'.ne_list
    | list _ hnames' =>
      simp only [String.append_assoc, String.append_right_inj] at heq
      have hends (rest : String) : ∀ c ∈ (">" ++ rest).toList.head?, (c != '>') = false := by simp
      rw [← String.toList_inj, String.toList_append,
        String.toList_append (t := ">" ++ (text' ++ _))] at heq
      obtain ⟨-, hrest⟩ := run_inj (forall_ne_bracket hnames) (forall_ne_bracket hnames')
        (hends _) (hends _) heq
      exact (String.append_right_inj ">").mp (String.toList_injective hrest)

/-- **A line that looks like the header of an interface is one.** -/
theorem IsDeclarationLine.isHeritage {name generics heritage : String} (hname : isIdentifier name)
    (hgenerics : IsGenerics generics) (hheritage : IsClause heritage)
    (h : IsDeclarationLine ("  export interface " ++ name ++ generics ++ heritage ++ " \x7b")) :
    IsHeritage heritage := by
  simp only [String.append_assoc] at h
  generalize hl : "  export interface " ++ (name ++ (generics ++ (heritage ++ " \x7b"))) = l at h
  cases h with
  | typeAlias => exact absurd hl (ne_of_differ (by decide))
  | header hname' hgenerics' hheritage' =>
    obtain ⟨-, hrest⟩ := append_inj hname hname' (hgenerics.endsIdentifier hheritage)
      (hgenerics'.endsIdentifier hheritage'.isClause) ((String.append_right_inj _).mp hl)
    rwa [generics_inj hgenerics hgenerics' hheritage hheritage'.isClause hrest]
  | keyed hindent hkey _ => exact absurd hl.symm (keyed_ne hindent hkey (by decide))
  | plain hstart _ =>
    have hdiffer : ∀ start ∈ plainStarts, differ "  export interface " start := by decide
    exact absurd hl (ne_of_differ (hdiffer _ hstart))

end TypeCatalog.Syntax
