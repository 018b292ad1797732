import Mathlib.Data.List.Forall2
import TypeCatalog.Declaration.TypeTree

/-!
# Proofs/WrittenType/Grammar — how a written type is read

    type     ::=  operand  |  operand '|' type
    operand  ::=  name  |  name '<' arguments '>'  |  operand '[' ']'
    arguments ::= type  |  type ',' arguments

A text is first cut into tokens (`TypeToken.scan`): a name is a longest run of characters that are
neither a mark nor a space, and spaces only separate.  `TypeTree.Reads` is the grammar on tokens; an
array suffix belongs to the operand before it, so it binds tighter than a bar.

`Reads.unique` says that no text is read in two ways.  A reader that keeps a stack of open brackets
(`Reader.take`) follows every derivation, so two derivations of one text end in the same state.
-/

namespace TypeCatalog

/-! ## Tokens -/

/-- A token of a written type. -/
inductive TypeToken where
  | name (n : String)
  | less
  | greater
  | comma
  | bar
  | opening
  | closing
  deriving DecidableEq, Repr

namespace TypeToken

/-- The token that a mark is. -/
def ofMark? (c : Char) : Option TypeToken :=
  if c = '<' then some less
  else if c = '>' then some greater
  else if c = ',' then some comma
  else if c = '|' then some bar
  else if c = '[' then some opening
  else if c = ']' then some closing
  else none

/-- Whether a character may stand in a name. -/
def isNameChar (c : Char) : Bool := c != ' ' && (ofMark? c).isNone

/-- The token of the characters of a name; none if there are none. -/
def named : List Char → List TypeToken
  | [] => []
  | c :: rest => [name (String.ofList (c :: rest))]

/-- The tokens of a text that follows the characters `pending` of a name. -/
def scan (pending : List Char) : List Char → List TypeToken
  | [] => named pending
  | c :: rest =>
    if isNameChar c then scan (pending ++ [c]) rest
    else named pending ++ (ofMark? c).toList ++ scan [] rest

/-- A text in front of which a name ends. -/
def EndsName (rest : List Char) : Prop := ∀ c tail, rest = c :: tail → isNameChar c = false

theorem EndsName.nil : EndsName [] := fun _ _ h => nomatch h

theorem EndsName.cons {c : Char} (h : isNameChar c = false) (rest : List Char) :
    EndsName (c :: rest) := by
  rintro _ _ ⟨⟩
  exact h

/-- Characters of a name are kept until the name ends. -/
theorem scan_name (pending : List Char) {cs : List Char} (h : ∀ c ∈ cs, isNameChar c)
    (rest : List Char) : scan pending (cs ++ rest) = scan (pending ++ cs) rest := by
  induction cs generalizing pending with
  | nil => rw [List.nil_append, List.append_nil]
  | cons c cs ih =>
    obtain ⟨hc, hcs⟩ := List.forall_mem_cons.mp h
    rw [List.cons_append, scan, if_pos hc, ih _ hcs, List.append_assoc, List.singleton_append]

/-- …and what ends a name does not see it. -/
theorem scan_pending (pending : List Char) {rest : List Char} (h : EndsName rest) :
    scan pending rest = named pending ++ scan [] rest := by
  cases rest with
  | nil => rw [scan, scan, named, List.append_nil]
  | cons c tail =>
    have hc : isNameChar c = false := h c tail rfl
    rw [scan, scan, hc, named]
    simp only [Bool.false_eq_true, if_false, List.nil_append, List.append_assoc]

/-- A text that is cut into tokens on its own, whatever ends its last name. -/
def Scans (text : List Char) (ts : List TypeToken) : Prop :=
  ∀ rest, EndsName rest → scan [] (text ++ rest) = ts ++ scan [] rest

theorem Scans.scan_eq {text : List Char} {ts : List TypeToken} (h : Scans text ts) :
    scan [] text = ts := by
  have := h [] .nil
  rwa [List.append_nil, scan, named, List.append_nil] at this

/-- Whether a text is a name: not empty, and without marks and spaces. -/
def isName (n : String) : Bool := n != "" && n.toList.all isNameChar

theorem Scans.name {n : String} (h : isName n) : Scans n.toList [name n] := by
  intro rest hrest
  obtain ⟨hne, hall⟩ : n ≠ "" ∧ n.toList.all isNameChar := by simpa [isName] using h
  rw [scan_name [] (List.all_eq_true.mp hall), List.nil_append, scan_pending _ hrest]
  cases hn : n.toList with
  | nil => exact absurd (String.toList_eq_nil_iff.mp hn) hne
  | cons c cs => rw [named, ← hn, String.ofList_toList]

/-- Marks and spaces that end the name before them, and their tokens. -/
structure Separates (marks : List Char) (us : List TypeToken) : Prop where
  scan_eq : ∀ rest, scan [] (marks ++ rest) = us ++ scan [] rest
  endsName : ∀ rest, EndsName (marks ++ rest)

theorem Separates.of_marks {marks : List Char} {us : List TypeToken} (hne : marks ≠ [])
    (h : marks.all fun c => !isNameChar c) (hus : marks.filterMap ofMark? = us) :
    Separates marks us := by
  have hmarks : ∀ c ∈ marks, isNameChar c = false := by simpa using h
  clear h
  subst hus
  constructor
  · intro rest
    clear hne
    induction marks with
    | nil => rfl
    | cons c marks ih =>
      obtain ⟨hc, hcs⟩ := List.forall_mem_cons.mp hmarks
      rw [List.cons_append, scan, hc, ih hcs, named, List.filterMap_cons]
      cases ofMark? c <;> rfl
  · obtain ⟨c, rest, rfl⟩ := List.exists_cons_of_ne_nil hne
    exact fun _ => .cons (hmarks c List.mem_cons_self) _

theorem separates_less : Separates ['<'] [less] := .of_marks (by decide) (by decide) rfl

theorem separates_greater : Separates ['>'] [greater] := .of_marks (by decide) (by decide) rfl

theorem separates_comma : Separates [',', ' '] [comma] := .of_marks (by decide) (by decide) rfl

theorem separates_bar : Separates [' ', '|', ' '] [bar] := .of_marks (by decide) (by decide) rfl

theorem separates_brackets : Separates ['[', ']'] [opening, closing] :=
  .of_marks (by decide) (by decide) rfl

theorem Scans.append {text marks : List Char} {ts us : List TypeToken} (h : Scans text ts)
    (hmarks : Separates marks us) : Scans (text ++ marks) (ts ++ us) := by
  intro rest _
  rw [List.append_assoc, h _ (hmarks.endsName rest), hmarks.scan_eq, List.append_assoc]

theorem Scans.append_append {text marks more : List Char} {ts us vs : List TypeToken}
    (h : Scans text ts) (hmarks : Separates marks us) (h' : Scans more vs) :
    Scans (text ++ marks ++ more) (ts ++ us ++ vs) := by
  intro rest hrest
  rw [List.append_assoc, List.append_assoc, h _ (hmarks.endsName _), hmarks.scan_eq, h' _ hrest,
    List.append_assoc, List.append_assoc]

/-- Texts between separators. -/
theorem Scans.intercalate {marks : List Char} {us : List TypeToken} (hmarks : Separates marks us)
    {texts : List (List Char)} {tss : List (List TypeToken)} (h : List.Forall₂ Scans texts tss) :
    Scans (marks.intercalate texts) (us.intercalate tss) := by
  induction h with
  | nil => exact fun _ _ => rfl
  | @cons text ts texts tss head tail ih =>
    cases tail with
    | nil => simpa using head
    | cons second tail =>
      rw [List.intercalate_cons_cons, List.intercalate_cons_cons]
      exact head.append_append hmarks ih

end TypeToken

open TypeToken

namespace TypeTree

/-! ## The grammar -/

/-- The type of one or more alternatives: a single one stands for itself. -/
def ofAlternatives : List TypeTree → TypeTree
  | [t] => t
  | ts => union ts

mutual
/-- Tokens of a name, with or without arguments, under any number of array suffixes. -/
inductive Operand : List TypeToken → TypeTree → Prop
  | name (n : String) : Operand [.name n] (.name n)
  | apply {n : String} {ts : List TypeToken} {arguments : List TypeTree} :
      Arguments ts arguments → Operand (.name n :: .less :: (ts ++ [.greater])) (.apply n arguments)
  | array {ts : List TypeToken} {t : TypeTree} :
      Operand ts t → Operand (ts ++ [.opening, .closing]) (.array t)

/-- Tokens of a type: its alternatives, between bars. -/
inductive Alternatives : List TypeToken → List TypeTree → Prop
  | one {ts : List TypeToken} {t : TypeTree} : Operand ts t → Alternatives ts [t]
  | more {ts us : List TypeToken} {t : TypeTree} {rest : List TypeTree} :
      Operand ts t → Alternatives us rest → Alternatives (ts ++ .bar :: us) (t :: rest)

/-- Tokens of the arguments of a name: types, between commas. -/
inductive Arguments : List TypeToken → List TypeTree → Prop
  | one {ts : List TypeToken} {alternatives : List TypeTree} :
      Alternatives ts alternatives → Arguments ts [ofAlternatives alternatives]
  | more {ts us : List TypeToken} {alternatives rest : List TypeTree} :
      Alternatives ts alternatives → Arguments us rest →
        Arguments (ts ++ .comma :: us) (ofAlternatives alternatives :: rest)
end

/-- **A text is read as a type.** -/
def Reads (text : String) (t : TypeTree) : Prop :=
  ∃ alternatives, Alternatives (scan [] text.toList) alternatives ∧ t = ofAlternatives alternatives

/-- Two types with a bar between them. -/
theorem Alternatives.append {ts us : List TypeToken} {as bs : List TypeTree}
    (h : Alternatives ts as) (h' : Alternatives us bs) :
    Alternatives (ts ++ .bar :: us) (as ++ bs) := by
  induction as generalizing ts with
  | nil => cases h
  | cons a as ih =>
    cases h with
    | one ha => exact .more ha h'
    | more ha has =>
      rw [List.append_assoc, List.cons_append]
      exact .more ha (ih has)

/-- Types with bars between them. -/
theorem Alternatives.intercalate {tss : List (List TypeToken)} {ass : List (List TypeTree)}
    (h : List.Forall₂ Alternatives tss ass) (hne : tss ≠ []) :
    Alternatives ([TypeToken.bar].intercalate tss) ass.flatten := by
  induction h with
  | nil => exact absurd rfl hne
  | @cons ts as tss ass head tail ih =>
    cases tail with
    | nil => simpa using head
    | cons second tail =>
      rw [List.intercalate_cons_cons, List.append_assoc, List.flatten_cons]
      exact head.append (ih (List.cons_ne_nil _ _))

/-- Types with commas between them. -/
theorem Arguments.intercalate {tss : List (List TypeToken)} {ass : List (List TypeTree)}
    (h : List.Forall₂ Alternatives tss ass) (hne : tss ≠ []) :
    Arguments ([TypeToken.comma].intercalate tss) (ass.map ofAlternatives) := by
  induction h with
  | nil => exact absurd rfl hne
  | @cons ts as tss ass head tail ih =>
    cases tail with
    | nil => simpa using Arguments.one head
    | cons second tail =>
      rw [List.intercalate_cons_cons, List.append_assoc, List.map_cons]
      exact .more head (ih (List.cons_ne_nil _ _))

/-- An array suffix belongs to the last alternative. -/
theorem Alternatives.array {ts : List TypeToken} {init : List TypeTree} {t : TypeTree}
    (h : Alternatives ts (init ++ [t])) :
    Alternatives (ts ++ [.opening, .closing]) (init ++ [.array t]) := by
  induction init generalizing ts with
  | nil =>
    cases h with
    | one ht => exact .one ht.array
    | more _ h' => cases h'
  | cons a init ih =>
    rw [List.cons_append] at h ⊢
    generalize hall : init ++ [t] = all at h
    cases h with
    | one => exact absurd hall (by simp)
    | more ha h' =>
      rw [List.append_assoc, List.cons_append]
      exact .more ha (ih (hall ▸ h'))

/-! ## No text is read in two ways

The reader is not a parser: it accepts anything.  It is only asked to follow the derivations. -/

/-- What is open at a bracket: the name whose arguments are read, those that are read already, and
the alternatives beside that name, the last one first. -/
structure Scope where
  head : TypeTree
  done : List TypeTree
  beside : List TypeTree

/-- The alternatives read so far inside the innermost bracket, the last one first, and the brackets
that are open, the innermost first. -/
structure Reader where
  items : List TypeTree
  scopes : List Scope

/-- A name, given its arguments. -/
def applied : TypeTree → List TypeTree → TypeTree
  | name n, arguments => apply n arguments
  | t, _ => t

/-- Reads a token. -/
def Reader.take (s : Reader) : TypeToken → Reader
  | .name n => { s with items := TypeTree.name n :: s.items }
  | .bar => s
  | .opening => s
  | .closing => match s.items with
    | [] => s
    | t :: rest => { s with items := .array t :: rest }
  | .less => match s.items with
    | [] => s
    | t :: rest => ⟨[], ⟨t, [], rest⟩ :: s.scopes⟩
  | .comma => match s.scopes with
    | [] => s
    | c :: rest => ⟨[], { c with done := c.done ++ [ofAlternatives s.items.reverse] } :: rest⟩
  | .greater => match s.scopes with
    | [] => s
    | c :: rest =>
      ⟨applied c.head (c.done ++ [ofAlternatives s.items.reverse]) :: c.beside, rest⟩

mutual
theorem Operand.foldl_take {ts : List TypeToken} {t : TypeTree} :
    Operand ts t → ∀ items scopes, ts.foldl Reader.take ⟨items, scopes⟩ = ⟨t :: items, scopes⟩
  | .name n, _, _ => rfl
  | .apply h, items, scopes => by
    rw [List.foldl_cons, List.foldl_cons]
    exact h.foldl_take _ [] items scopes
  | .array h, items, scopes => by
    rw [List.foldl_append, h.foldl_take]
    rfl

theorem Alternatives.foldl_take {ts : List TypeToken} {as : List TypeTree} :
    Alternatives ts as → ∀ items scopes,
      ts.foldl Reader.take ⟨items, scopes⟩ = ⟨as.reverse ++ items, scopes⟩
  | .one h, items, scopes => h.foldl_take items scopes
  | @Alternatives.more _ _ t _ h h', items, scopes => by
    rw [List.foldl_append, h.foldl_take, List.foldl_cons, List.reverse_cons, List.append_assoc,
      List.singleton_append]
    exact h'.foldl_take (t :: items) scopes

theorem Arguments.foldl_take {ts : List TypeToken} {args : List TypeTree} :
    Arguments ts args → ∀ n done beside scopes,
      (ts ++ [TypeToken.greater]).foldl Reader.take ⟨[], ⟨.name n, done, beside⟩ :: scopes⟩
        = ⟨.apply n (done ++ args) :: beside, scopes⟩
  | .one h, n, done, beside, scopes => by
    rw [List.foldl_append, h.foldl_take, List.append_nil, List.foldl_cons, List.foldl_nil]
    simp only [Reader.take, List.reverse_reverse, applied]
  | .more h h', n, done, beside, scopes => by
    rw [List.append_assoc, List.foldl_append, h.foldl_take, List.append_nil, List.cons_append,
      List.foldl_cons]
    simp only [Reader.take, List.reverse_reverse]
    rw [h'.foldl_take, List.append_assoc, List.singleton_append]
end

/-- **No text is read as two types.** -/
theorem Reads.unique {text : String} {t u : TypeTree} (ht : Reads text t) (hu : Reads text u) :
    t = u := by
  obtain ⟨as, has, rfl⟩ := ht
  obtain ⟨bs, hbs, rfl⟩ := hu
  have h : (⟨as.reverse ++ [], []⟩ : Reader) = ⟨bs.reverse ++ [], []⟩ :=
    (has.foldl_take [] []).symm.trans (hbs.foldl_take [] [])
  have : as.reverse = bs.reverse := by simpa using congrArg Reader.items h
  rw [List.reverse_inj.mp this]

end TypeTree

end TypeCatalog
