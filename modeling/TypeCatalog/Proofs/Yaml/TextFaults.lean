import TypeCatalog.Proofs.Ensures
import TypeCatalog.Proofs.Json.Numerals
import TypeCatalog.Yaml.Layout

/-!
# Proofs/Yaml/TextFaults — what in a text stops a reader of scalars, tags or directives

Two things stop a reader otherwise than bad syntax (`Accounts`): an escape that names a character by
a number that none has, and a number of a version with too many digits.  The readers are followed
down the text: what each leaves is an end of what it was given (`Scans`), so what it has met is in
the text.
-/

namespace TypeCatalog.Yaml

open Text

/-! ## What accounts for a fault -/

/-- A text has an escape that names a character by this number. -/
def HasEscape (text : List Char) (n : Nat) : Prop :=
  ∃ letter width digits, escapeWidth? letter = some width ∧
    '\\' :: letter :: digits <:+: text ∧ digits.length = width ∧ hexNumber? digits = some n

/-- A text accounts for a fault among its tokens: its syntax is bad, an escape names a character
that is none, or a number of a version is too long. -/
inductive Accounts (text : List Char) : Fault → Prop
  | malformed : Accounts text .malformed
  | codePoint {n : Nat} : HasEscape text n → 0x10FFFF < n → Accounts text .codePoint
  | overflow {n : Nat} : HasEscape text n → 0x7FFFFFFF < n → Accounts text .overflow
  | version : Json.HasLongNumeral text → Accounts text .badNumeral

theorem HasEscape.of_suffix {text rest : List Char} {n : Nat} (h : HasEscape rest n)
    (hrest : rest <:+ text) : HasEscape text n := by
  obtain ⟨letter, width, digits, hwidth, hdigits, hlength, hn⟩ := h
  exact ⟨letter, width, digits, hwidth, hdigits.trans hrest.isInfix, hlength, hn⟩

/-- An end of a text accounts for no fault that the text does not account for. -/
theorem Accounts.of_suffix {text rest : List Char} {fault : Fault} (h : Accounts rest fault)
    (hrest : rest <:+ text) : Accounts text fault := by
  cases h with
  | malformed => exact .malformed
  | codePoint hescape hn => exact .codePoint (hescape.of_suffix hrest) hn
  | overflow hescape hn => exact .overflow (hescape.of_suffix hrest) hn
  | version hlong => exact .version (hlong.of_suffix hrest)

/-! ## Cursors -/

namespace Cursor

/-- One character on, an end of the text is left. -/
theorem next_suffix (c : Cursor) : c.next.rest <:+ c.rest := by
  rw [next.eq_def]
  split
  · next hrest => rw [hrest]
  · next x rest hrest =>
    rw [hrest]
    split
    · exact List.suffix_cons x rest
    · exact List.suffix_cons x rest

/-- Some characters on, an end of the text is left. -/
theorem skip_suffix (n : Nat) (c : Cursor) : (c.skip n).rest <:+ c.rest := by
  induction n generalizing c with
  | zero => exact List.suffix_refl _
  | succ n ih => exact (ih c.next).trans c.next_suffix

theorem span_suffix (c : Cursor) (holds : Char → Bool) : (c.span holds).2.rest <:+ c.rest :=
  skip_suffix _ c

theorem skipSpaces_suffix (c : Cursor) : c.skipSpaces.rest <:+ c.rest := c.span_suffix _

theorem skipLine_suffix (c : Cursor) : c.skipLine.rest <:+ c.rest := c.span_suffix _

/-- After a line break an end of the text is left. -/
theorem break?_suffix {c after : Cursor} {x : Char} (h : c.break? = some (x, after)) :
    after.rest <:+ c.rest := by
  rw [break?] at h
  split at h
  · split at h
    · obtain ⟨-, rfl⟩ := Prod.mk.inj (Option.some.inj h)
      exact c.next_suffix
    · cases h
  · cases h

/-- The cursor after spaces and a comment. -/
theorem skipComment_suffix (c : Cursor) :
    (if c.skipSpaces.sees '#' then c.skipSpaces.skipLine else c.skipSpaces).rest <:+ c.rest := by
  split
  · exact c.skipSpaces.skipLine_suffix.trans c.skipSpaces_suffix
  · exact c.skipSpaces_suffix

/-- The cursor after a line break, if there is one. -/
theorem afterBreak_suffix (c : Cursor) : ((c.break?.map (·.2)).getD c).rest <:+ c.rest := by
  cases h : c.break? with
  | none => exact List.suffix_refl _
  | some found => exact break?_suffix h

/-- The next character is what the text goes on with. -/
theorem rest_of_peek? {c : Cursor} {x : Char} (h : c.peek? = some x) :
    c.rest = x :: c.next.rest := by
  rw [peek?] at h
  obtain ⟨rest, hrest⟩ := List.head?_eq_some_iff.mp h
  rw [next.eq_def, hrest]
  dsimp only
  split
  · rfl
  · rfl

end Cursor

/-! ## Readers -/

section Scans

variable {α β : Type} {P : α → Prop} {Q : β → Prop} {text rest : List Char}
  {x : Except Fault (α × Cursor)}

/-- A reader leaves an end of the text after what it has read, or fails as the text accounts for. -/
abbrev Scans (P : α → Prop) (text : List Char) (x : Except Fault (α × Cursor)) : Prop :=
  Ensures (fun r => P r.1 ∧ r.2.rest <:+ text) (Accounts text) x

/-- What is read at an end of a text is read in the text. -/
theorem Scans.of_suffix (h : Scans P rest x) (hrest : rest <:+ text) : Scans P text x :=
  h.mono (fun _ hr => ⟨hr.1, hr.2.trans hrest⟩) fun _ he => he.of_suffix hrest

theorem Scans.map {f : α → β} (h : Scans P text x) (hf : ∀ a, P a → Q (f a)) :
    Scans Q text (x.map fun (a, c) => (f a, c)) :=
  Ensures.map h fun _ hr => ⟨hf _ hr.1, hr.2⟩

/-- A reader of which nothing is said but where it leaves the text. -/
theorem Scans.mapped {f : α → β} (h : Scans (fun _ => True) text x) :
    Scans (fun _ => True) text (x.map fun (a, c) => (f a, c)) := h.map fun _ _ => trivial

/-- A second reader goes on where the first one stopped. -/
theorem Scans.bind {f : α × Cursor → Except Fault (β × Cursor)} (h : Scans P text x)
    (hf : ∀ a c, P a → c.rest <:+ text → Scans Q text (f (a, c))) : Scans Q text (x.bind f) :=
  Ensures.bind h fun r hr => hf r.1 r.2 hr.1 hr.2

end Scans

/-! ### Scalars in quotes -/

/-- A number that is read after a backslash and a letter is that of an escape. -/
theorem hasEscape_of_codeNumber? {c : Cursor} {letter : Char} {width n : Nat} {text : List Char}
    (hwidth : escapeWidth? letter = some width) (htext : '\\' :: letter :: c.rest <:+ text)
    (h : codeNumber? c width = some n) : HasEscape text n := by
  rw [codeNumber?] at h
  split at h
  · cases h
  · next hlength =>
    refine ⟨letter, width, c.rest.take width, hwidth, ?_, ?_, h⟩
    · refine List.IsInfix.trans ?_ htext.isInfix
      exact (List.take_prefix (width + 2) ('\\' :: letter :: c.rest)).isInfix
    · exact Nat.le_antisymm (List.length_take_le width c.rest) (Nat.le_of_not_lt hlength)

/-- **An escape by number is read, or accounts for its fault.** -/
theorem scans_codeEscape {c : Cursor} {letter : Char} {width : Nat} {text : List Char}
    (hwidth : escapeWidth? letter = some width) (htext : '\\' :: letter :: c.rest <:+ text) :
    Scans (fun _ => True) text (codeEscape c width) := by
  have hrest : c.rest <:+ text :=
    ((List.suffix_cons letter c.rest).trans (List.suffix_cons _ _)).trans htext
  rw [codeEscape]
  cases hn : codeNumber? c width with
  | none => exact Accounts.malformed
  | some n =>
    have hescape := hasEscape_of_codeNumber? hwidth htext hn
    dsimp only
    split
    · next hlarge => exact Accounts.overflow hescape hlarge
    · split
      · next hfar => exact Accounts.codePoint hescape hfar
      · exact ⟨trivial, (Cursor.skip_suffix width c).trans hrest⟩

/-- Line breaks in quotes, with the blanks around them. -/
theorem scans_quotedBreaks (fuel : Nat) (c : Cursor) :
    Scans (fun _ => True) c.rest (quotedBreaks fuel c) := by
  induction fuel generalizing c with
  | zero => exact Accounts.malformed
  | succ fuel ih =>
    rw [quotedBreaks]
    refine .ite .malformed ?_
    have hgap := c.span_suffix fun x => x == ' ' || x == '\t'
    dsimp only
    split
    · exact ⟨trivial, hgap⟩
    · next x after hbreak =>
      exact ((ih after).of_suffix ((Cursor.break?_suffix hbreak).trans hgap)).mapped

/-- The inside of quotes: each round ends them, reads on, or fails as an escape accounts for. -/
theorem scans_quotedFrom (quote : Char) (fuel : Nat) (c : Cursor) :
    Scans (fun _ => True) c.rest (quotedFrom quote fuel c) := by
  induction fuel generalizing c with
  | zero => exact Accounts.malformed
  | succ fuel ih =>
    have hon {c' : Cursor} (hc : c'.rest <:+ c.rest) :
        Scans (fun _ => True) c.rest (quotedFrom quote fuel c') := (ih c').of_suffix hc
    rw [quotedFrom]
    split
    · exact Accounts.malformed
    · next x hpeek =>
      have hrest := Cursor.rest_of_peek? hpeek
      refine .ite (.ite (hon (Cursor.skip_suffix 2 c)).mapped ⟨trivial, c.next_suffix⟩) ?_
      split
      · next hslash =>
        obtain ⟨-, hx⟩ := Bool.and_eq_true_iff.mp hslash
        obtain rfl := beq_iff_eq.mp hx
        dsimp only
        split
        · exact Accounts.malformed
        · next letter hletter =>
          rw [Cursor.rest_of_peek? hletter] at hrest
          have hnext := c.next.next_suffix.trans c.next_suffix
          split
          · exact (hon hnext).mapped
          · next width _ hwidth =>
            have hcode : Scans (fun _ => True) c.rest (codeEscape c.next.next width) :=
              scans_codeEscape hwidth (hrest ▸ List.suffix_refl c.rest)
            obtain ⟨⟨y, after⟩, hy, -, hafter⟩ | ⟨fault, hfault, he⟩ := hcode.ok_or_error
            · rw [hy]
              exact (hon hafter).mapped
            · rw [hfault]
              exact he
          · refine .ite ?_ .malformed
            obtain ⟨⟨breaks, after⟩, hbreaks, -, hafter⟩ | ⟨fault, hfault, he⟩ :=
              ((scans_quotedBreaks c.next.rounds c.next.next).of_suffix hnext).ok_or_error
            · rw [hbreaks]
              exact (hon hafter).mapped
            · rw [hfault]
              exact he
      · refine .ite ?_ (hon c.next_suffix).mapped
        have hgap := c.span_suffix fun y => y == ' ' || y == '\t'
        dsimp only
        split
        · exact (hon hgap).mapped
        · next first after hbreak =>
          obtain ⟨⟨others, after'⟩, hothers, -, hafter⟩ | ⟨fault, hfault, he⟩ :=
            ((scans_quotedBreaks after.rounds after).of_suffix
              ((Cursor.break?_suffix hbreak).trans hgap)).ok_or_error
          · rw [hothers]
            exact (hon hafter).mapped
          · rw [hfault]
            exact he

/-- A scalar in quotes. -/
theorem scans_quotedText (quote : Char) (c : Cursor) :
    Scans (fun _ => True) c.rest (quotedText quote c) :=
  ((scans_quotedFrom quote c.rounds c.next).of_suffix c.next_suffix).mapped

/-! ### Other scalars -/

theorem plainBreaks_suffix (fuel : Nat) (c : Cursor) :
    (plainBreaks fuel c).2.1.rest <:+ c.rest := by
  induction fuel generalizing c with
  | zero => exact List.suffix_refl _
  | succ fuel ih =>
    rw [plainBreaks]
    dsimp only
    split
    · exact c.skipSpaces_suffix
    · next x after hbreak =>
      have hafter := (Cursor.break?_suffix hbreak).trans c.skipSpaces_suffix
      split
      · exact hafter
      · exact (ih after).trans hafter

/-- The gap inside a plain scalar, which may go over lines. -/
theorem plainGap_suffix (c : Cursor) : (plainGap c).2.1.rest <:+ c.rest := by
  rw [plainGap]
  have hspan := c.span_suffix (· == ' ')
  dsimp only
  split
  · exact hspan
  · next x after hbreak =>
    have hafter := (Cursor.break?_suffix hbreak).trans hspan
    split
    · exact hafter
    · exact (plainBreaks_suffix _ after).trans hafter

/-- A plain scalar goes on over its gaps, always forwards. -/
theorem plainFrom_suffix (inFlow : Bool) (indent : Int) (fuel : Nat) (c : Cursor)
    (gap : List Char) (ended : Bool) :
    (plainFrom inFlow indent fuel c gap ended).2.1.rest <:+ c.rest := by
  induction fuel generalizing c gap ended with
  | zero => exact List.suffix_refl _
  | succ fuel ih =>
    rw [plainFrom]
    dsimp only
    generalize (if c.sees '#' then [] else plainRun inFlow c.rest) = run
    split
    · exact List.suffix_refl _
    · have hgap := (plainGap_suffix (c.skip run.length)).trans (c.skip_suffix run.length)
      split
      · exact hgap
      · exact (ih _ _ _).trans hgap

/-- A plain scalar leaves an end of the text, and never fails. -/
theorem plainText_suffix (inFlow : Bool) (indent : Int) (c : Cursor) :
    (plainText inFlow indent c).2.1.rest <:+ c.rest :=
  plainFrom_suffix inFlow indent c.rounds c [] false

/-- The empty lines before a block scalar whose indentation is not given. -/
theorem leadingBreaks_suffix (fuel : Nat) (c : Cursor) (widest : Nat) :
    (leadingBreaks fuel c widest).2.2.rest <:+ c.rest := by
  induction fuel generalizing c widest with
  | zero => exact List.suffix_refl _
  | succ fuel ih =>
    rw [leadingBreaks]
    dsimp only
    split
    · exact c.skipSpaces_suffix
    · next x after hbreak =>
      exact (ih after _).trans ((Cursor.break?_suffix hbreak).trans c.skipSpaces_suffix)

theorem blockBreaks_suffix (indent fuel : Nat) (c : Cursor) :
    (blockBreaks indent fuel c).2.rest <:+ c.rest := by
  induction fuel generalizing c with
  | zero => exact List.suffix_refl _
  | succ fuel ih =>
    have hskip : (skipToColumn indent c).rest <:+ c.rest := c.skip_suffix _
    rw [blockBreaks]
    dsimp only
    split
    · exact hskip
    · next x after hbreak => exact (ih after).trans ((Cursor.break?_suffix hbreak).trans hskip)

/-- The lines of a block scalar. -/
theorem blockLines_suffix (folded : Bool) (indent fuel : Nat) (c : Cursor) :
    (blockLines folded indent fuel c).2.2.2.rest <:+ c.rest := by
  induction fuel generalizing c with
  | zero => exact List.suffix_refl _
  | succ fuel ih =>
    have hline := c.span_suffix fun x => !isBreak x
    rw [blockLines]
    dsimp only
    split
    · exact hline
    · next x after hbreak =>
      have hbreaks := (blockBreaks_suffix indent after.rounds after).trans
        ((Cursor.break?_suffix hbreak).trans hline)
      split
      · exact (ih _).trans hbreaks
      · exact hbreaks

/-- The header of a block scalar: its signs, a comment and the end of the line. -/
theorem ensures_blockHeader (c : Cursor) :
    Ensures (fun r => r.2.2.rest <:+ c.rest) (Accounts c.rest) (blockHeader c) := by
  rw [blockHeader]
  split
  next _ chomping digit c' hsigns =>
  have hc' : c'.rest <:+ c.rest := by
    split at hsigns
    · split at hsigns
      · cases hsigns
        exact c.skip_suffix 2
      · cases hsigns
        exact c.next_suffix
    · split at hsigns
      · cases hsigns
        exact c.skip_suffix 2
      · cases hsigns
        exact c.next_suffix
    · cases hsigns
      exact List.suffix_refl _
  refine .ite .malformed ?_
  have hcomment := c'.skipComment_suffix.trans hc'
  exact .ite .malformed ((Cursor.afterBreak_suffix _).trans hcomment)

/-- A block scalar, whose only fault is a bad header. -/
theorem scans_blockText (folded : Bool) (parent : Int) (c : Cursor) :
    Scans (fun _ => True) c.rest (blockText folded parent c) := by
  rw [blockText]
  obtain ⟨⟨chomping, digit, c'⟩, hheader, hc'⟩ | ⟨fault, hfault, he⟩ :=
    (ensures_blockHeader c.next).ok_or_error
  · have hbody := List.IsSuffix.trans hc' c.next_suffix
    rw [hheader]
    dsimp only
    split
    · have hbreaks (indent : Nat) := (blockBreaks_suffix indent c'.rounds c').trans hbody
      exact .ite ⟨trivial, (blockLines_suffix folded _ _ _).trans (hbreaks _)⟩ ⟨trivial, hbreaks _⟩
    · have hleading := (leadingBreaks_suffix c'.rounds c' 0).trans hbody
      exact .ite ⟨trivial, (blockLines_suffix folded _ _ _).trans hleading⟩ ⟨trivial, hleading⟩
  · rw [hfault]
    exact he.of_suffix c.next_suffix

/-! ### Names and tags -/

/-- A token is a piece of the text, and no fault. -/
def Token.IsPiece : Token → Prop
  | .fault _ => False
  | _ => True

/-- The name of an anchor or an alias. -/
theorem scans_nodeName (c : Cursor) : Scans (fun _ => True) c.rest (nodeName c) :=
  .ite .malformed ⟨trivial, (c.next.span_suffix isNameChar).trans c.next_suffix⟩

/-- The text of a tag, with its escapes. -/
theorem scans_tagText (fuel : Nat) (c : Cursor) :
    Scans (fun _ => True) c.rest (tagText fuel c) := by
  induction fuel generalizing c with
  | zero => exact Accounts.malformed
  | succ fuel ih =>
    rw [tagText]
    have hrun := c.span_suffix fun x => isTagChar x && x != '%'
    refine .ite ?_ ⟨trivial, hrun⟩
    split
    · exact Accounts.malformed
    · split
      · exact Accounts.malformed
      · exact ((ih _).of_suffix ((Cursor.skip_suffix _ _).trans hrun)).mapped

theorem scans_tagSuffix (c : Cursor) : Scans (fun _ => True) c.rest (tagSuffix c) := by
  rw [tagSuffix]
  obtain ⟨⟨text, after⟩, htext, -, hafter⟩ | ⟨fault, hfault, he⟩ :=
    (scans_tagText c.rounds c).ok_or_error
  · rw [htext]
    exact .ite .malformed ⟨trivial, hafter⟩
  · rw [hfault]
    exact he

/-- The handle of a tag. -/
theorem scans_tagHandle (c : Cursor) : Scans (fun _ => True) c.rest (tagHandle c) := by
  have hname := (c.next.span_suffix isNameChar).trans c.next_suffix
  refine .ite .malformed (.ite ⟨trivial, c.next_suffix⟩ ?_)
  exact .ite ⟨trivial, (Cursor.next_suffix _).trans hname⟩ .malformed

/-- A tag in one of its three forms. -/
theorem scans_tagBody (c : Cursor) : Scans Token.IsPiece c.rest (tagBody c) := by
  refine .ite ?_ (.ite ⟨trivial, c.next_suffix⟩ (.ite ?_ ?_))
  · refine ((scans_tagSuffix (c.skip 2)).of_suffix (c.skip_suffix 2)).bind fun text after _ h => ?_
    exact .ite ⟨trivial, after.next_suffix.trans h⟩ .malformed
  · refine (scans_tagHandle c).bind fun handle after _ h => ?_
    exact ((scans_tagSuffix after).of_suffix h).map fun _ _ => trivial
  · exact ((scans_tagSuffix c.next).of_suffix c.next_suffix).map fun _ _ => trivial

/-- A tag, and what must come after it. -/
theorem scans_tagToken (c : Cursor) : Scans Token.IsPiece c.rest (tagToken c) :=
  (scans_tagBody c).bind fun _ _ htoken h => .ite ⟨htoken, h⟩ .malformed

/-! ### Directives -/

/-- **A number of a version is read, or is a numeral that is too long.** -/
theorem scans_versionNumber (c : Cursor) : Scans (fun _ => True) c.rest (versionNumber c) := by
  rw [versionNumber]
  refine .ite .malformed ?_
  split
  · next hlong =>
    exact Accounts.version ⟨c.rest.takeWhile Char.isDigit, (List.takeWhile_prefix _).isInfix,
      fun d hd => List.mem_takeWhile_imp hd, hlong⟩
  · exact ⟨trivial, c.span_suffix Char.isDigit⟩

/-- The directive that names a version, by two numbers. -/
theorem scans_versionDirective (c : Cursor) :
    Scans Token.IsPiece c.rest (versionDirective c) := by
  refine ((scans_versionNumber c.skipSpaces).of_suffix c.skipSpaces_suffix).bind
    fun major c₁ _ h₁ => .ite .malformed ?_
  refine ((scans_versionNumber c₁.next).of_suffix (c₁.next_suffix.trans h₁)).bind
    fun _ c₂ _ h₂ => ?_
  exact .ite ⟨trivial, h₂⟩ .malformed

theorem scans_handleDirective (c : Cursor) :
    Scans Token.IsPiece c.rest (handleDirective c) := by
  refine ((scans_tagHandle c.skipSpaces).of_suffix c.skipSpaces_suffix).bind
    fun handle c₁ _ h₁ => .ite .malformed ?_
  refine ((scans_tagSuffix c₁.skipSpaces).of_suffix (c₁.skipSpaces_suffix.trans h₁)).bind
    fun start c₂ _ h₂ => ?_
  exact .ite ⟨trivial, h₂⟩ .malformed

/-- A directive of any name, up to the end of its line. -/
theorem scans_directiveToken (c : Cursor) : Scans Token.IsPiece c.rest (directiveToken c) := by
  have hname := (c.next.span_suffix isNameChar).trans c.next_suffix
  refine .ite .malformed (Scans.bind (P := Token.IsPiece) ?_ fun token c₁ htoken h₁ => ?_)
  · split
    · exact (scans_versionDirective _).of_suffix hname
    · exact (scans_handleDirective _).of_suffix hname
    · exact ⟨trivial, (Cursor.skipLine_suffix _).trans hname⟩
  · have hcomment := c₁.skipComment_suffix.trans h₁
    exact .ite ⟨htoken, (Cursor.afterBreak_suffix _).trans hcomment⟩ .malformed

end TypeCatalog.Yaml
