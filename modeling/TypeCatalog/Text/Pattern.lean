/-!
# Text/Pattern — patterns over characters, matched by derivatives

A `Pattern` describes a set of texts. `Pattern.after c` describes what may follow once `c` has been
read, so a text matches when, after all its characters, nothing more is needed (`matchesAll`).
Matching is recursion on the text; the smart constructors `seq` and `or` drop the dead branches, so
what is left to match stays as small as the pattern was.
-/

namespace TypeCatalog.Text

/-- A set of texts. -/
inductive Pattern where
  /-- No text. -/
  | none
  /-- The empty text. -/
  | empty
  /-- One character of a class. -/
  | char (holds : Char → Bool)
  /-- One text after another. -/
  | seq (first second : Pattern)
  /-- One text or another. -/
  | or (left right : Pattern)
  /-- Any number of texts, one after another. -/
  | many (each : Pattern)

namespace Pattern

/-- Whether the empty text matches. -/
def nullable : Pattern → Bool
  | none => false
  | empty => true
  | char _ => false
  | seq p q => p.nullable && q.nullable
  | or p q => p.nullable || q.nullable
  | many _ => true

/-- One pattern after another, without a part that can never match. -/
def andThen : Pattern → Pattern → Pattern
  | none, _ => none
  | empty, q => q
  | p, q => seq p q

/-- Either pattern, without a part that can never match. -/
def orElse : Pattern → Pattern → Pattern
  | none, q => q
  | p, none => p
  | p, q => or p q

/-- What has to follow once a character has been read. -/
def after (c : Char) : Pattern → Pattern
  | none => none
  | empty => none
  | char holds => if holds c then empty else none
  | seq p q =>
    if p.nullable then orElse (andThen (p.after c) q) (q.after c) else andThen (p.after c) q
  | or p q => orElse (p.after c) (q.after c)
  | many p => andThen (p.after c) (many p)

/-- Whether a whole text matches. -/
def matchesAll (p : Pattern) : List Char → Bool
  | [] => p.nullable
  | c :: rest => (p.after c).matchesAll rest

/-- A class of characters at least once. -/
def some (p : Pattern) : Pattern := seq p (many p)

/-- A pattern that may be absent. -/
def opt (p : Pattern) : Pattern := or empty p

/-- One character of a list. -/
def oneOf (cs : String) : Pattern := char fun c => cs.toList.contains c

/-- One decimal digit of the seven-bit code. -/
def digit : Pattern := char Char.isDigit

/-- Patterns one after another. -/
def inOrder : List Pattern → Pattern
  | [] => empty
  | [p] => p
  | p :: rest => seq p (inOrder rest)

/-- One pattern of several. -/
def anyOf : List Pattern → Pattern
  | [] => none
  | [p] => p
  | p :: rest => or p (anyOf rest)

/-- A fixed text. -/
def word (text : String) : Pattern := inOrder (text.toList.map fun c => char (· == c))

/-! ## What matches -/

theorem matchesAll_none (text : List Char) : none.matchesAll text = false := by
  induction text with
  | nil => rfl
  | cons c rest ih => exact ih

theorem matchesAll_or (p q : Pattern) (text : List Char) :
    (or p q).matchesAll text = (p.matchesAll text || q.matchesAll text) := by
  induction text generalizing p q with
  | nil => rfl
  | cons c rest ih =>
    rw [matchesAll, matchesAll, matchesAll, after, orElse.eq_def]
    split
    · next hp => rw [hp, matchesAll_none, Bool.false_or]
    · next hq _ => rw [hq, matchesAll_none, Bool.or_false]
    · exact ih _ _

theorem matchesAll_anyOf (ps : List Pattern) (text : List Char) :
    (anyOf ps).matchesAll text = ps.any (·.matchesAll text) := by
  induction ps with
  | nil => exact matchesAll_none text
  | cons p ps ih =>
    cases ps with
    | nil => rw [anyOf, List.any_cons, List.any_nil, Bool.or_false]
    | cons q qs =>
      change (or p (anyOf (q :: qs))).matchesAll text = _
      rw [matchesAll_or, ih]
      rfl

theorem matchesAll_char (holds : Char → Bool) (c : Char) (rest : List Char) :
    (char holds).matchesAll (c :: rest) = (holds c && rest.isEmpty) := by
  change (if holds c then empty else none).matchesAll rest = _
  cases holds c with
  | true =>
    cases rest with
    | nil => rfl
    | cons d rest => exact matchesAll_none rest
  | false => exact matchesAll_none rest

theorem matchesAll_char_seq (holds : Char → Bool) (q : Pattern) (c : Char) (rest : List Char) :
    (seq (char holds) q).matchesAll (c :: rest) = (holds c && q.matchesAll rest) := by
  change (andThen (if holds c then empty else none) q).matchesAll rest = _
  cases holds c with
  | true => rfl
  | false => exact matchesAll_none rest

/-- Fixed characters match themselves. -/
theorem matchesAll_characters (cs text : List Char) :
    (inOrder (cs.map fun c => char (· == c))).matchesAll text = (text == cs) := by
  induction cs generalizing text with
  | nil =>
    cases text with
    | nil => rfl
    | cons x rest => exact matchesAll_none rest
  | cons c cs ih =>
    cases text with
    | nil => cases cs <;> rfl
    | cons x rest =>
      rw [List.cons_beq_cons]
      cases cs with
      | nil => cases rest <;> exact matchesAll_char _ x _
      | cons d ds =>
        rw [← ih rest]
        exact matchesAll_char_seq _ _ x rest

theorem matchesAll_word (word text : String) :
    (Pattern.word word).matchesAll text.toList = (text == word) := by
  rw [Pattern.word, matchesAll_characters, Bool.eq_iff_iff, beq_iff_eq, beq_iff_eq,
    String.toList_inj]

end Pattern

end TypeCatalog.Text
