import TypeCatalog.Yaml.PlainScalar
import TypeCatalog.Yaml.ScalarText

/-!
# Proofs/Yaml/PlainTypes — a catalog types plain scalars as usual, but for truth values

The table that a catalog is read by is the usual one without its rule for truth values, and with a
narrower one after all others (`tried_catalogRules`).  That this rule is tried last makes no
difference, because no other rule takes a text that the usual one takes (`not_applies_of_mem`).  So
a plain scalar has its usual type, except that `yes`, `no`, `on` and `off` are strings
(`plain_scalar_tags`).
-/

namespace TypeCatalog.Yaml

open TypeCatalog.Text

/-! ## Tables of rules -/

/-- Whether a rule is tried for the texts that start with a character, or for the empty text. -/
def Rule.begins (r : Rule) (first : Option Char) : Bool := first.elim r.orEmpty r.starts.contains

theorem Rule.applies_eq (r : Rule) (text : List Char) : r.applies text =
    (r.begins text.head? && r.pattern.matchesAll (withoutLastBreak text)) := by
  cases text <;> rfl

/-- The rules that are tried for such texts, in their order. -/
def tried (rules : List Rule) (first : Option Char) : List Rule := rules.filter (·.begins first)

/-- Only the rules that are tried decide. -/
theorem tagBy_tried (rules : List Rule) (text : List Char) :
    tagBy (tried rules text.head?) text = tagBy rules text := by
  have happlies : (fun r : Rule => decide (r.begins text.head? = true ∧ r.applies text = true)) =
      (·.applies text) := by
    funext r
    rw [Bool.decide_and, Bool.decide_eq_true, Bool.decide_eq_true, r.applies_eq, ← Bool.and_assoc,
      Bool.and_self]
  rw [tagBy, tagBy, tried, List.find?_filter, happlies]

theorem tagBy_cons (r : Rule) (rules : List Rule) (text : List Char) :
    tagBy (r :: rules) text = if r.applies text then r.tag else tagBy rules text := by
  rw [tagBy, List.find?_cons]
  cases r.applies text <;> rfl

theorem find?_applies_eq_none {rules : List Rule} {text : List Char}
    (h : ∀ r ∈ rules, r.applies text = false) : rules.find? (·.applies text) = none :=
  List.find?_eq_none.mpr fun r hr => Bool.not_eq_true _ ▸ h r hr

/-- Rules that take none of the texts that a rule takes may as well be tried before it. -/
theorem tagBy_concat {rules : List Rule} {r : Rule} {text : List Char}
    (h : r.applies text → ∀ r' ∈ rules, r'.applies text = false) :
    tagBy (rules ++ [r]) text = tagBy (r :: rules) text := by
  rw [tagBy_cons, tagBy, List.find?_append]
  cases hr : r.applies text with
  | true =>
    rw [find?_applies_eq_none (h hr), Option.none_or, List.find?_singleton, hr]
    rfl
  | false =>
    rw [List.find?_singleton, hr]
    exact congrArg (fun o : Option Rule => (o.map (·.tag)).getD .str) (Option.or_none ..)

theorem tagBy_ne {rules : List Rule} {t : Tag} (h : ∀ r ∈ rules, r.tag ≠ t) (hstr : .str ≠ t)
    (text : List Char) : tagBy rules text ≠ t := by
  rw [tagBy]
  cases hfind : rules.find? (·.applies text) with
  | none => exact hstr
  | some r => exact h r (List.mem_of_find?_eq_some hfind)

namespace PlainScalar

/-! ## The two tables -/

/-- The usual type of a plain scalar. -/
def standardTag (text : String) : Tag := tagBy standardRules text.toList

/-- The usual rules, but for the one for truth values. -/
def otherRules : List Rule := standardRules.tail

theorem standardRules_eq : standardRules = standardBool :: otherRules := rfl

theorem catalogRules_eq : catalogRules = otherRules ++ [catalogBool] := rfl

theorem tag_ne_bool_of_mem : ∀ r ∈ otherRules, r.tag ≠ .bool := by decide

/-- **The table of a catalog is the usual one without the rule for truth values**, and with its own
such rule after all others, which is tried for four characters. -/
theorem tried_catalogRules (first : Option Char) : tried catalogRules first =
    (tried standardRules first).filter (·.tag != .bool) ++
      if first ∈ [some 't', some 'T', some 'f', some 'F'] then [catalogBool] else [] := by
  have hbegins : catalogBool.begins first =
      decide (first ∈ [some 't', some 'T', some 'f', some 'F']) := by
    cases first with
    | none => rfl
    | some c => simp [Rule.begins, catalogBool]
  rw [tried, tried, catalogRules, List.filter_append, List.filter_filter, List.filter_filter,
    List.filter_cons, List.filter_nil, hbegins]
  simp only [Bool.and_comm, decide_eq_true_eq]

/-! ## Truth values -/

/-- The texts that are truth values in a catalog. -/
def truthTexts : List String := ["true", "True", "TRUE", "false", "False", "FALSE"]

/-- The texts that are usually truth values, but not in a catalog. -/
def switchTexts : List String :=
  ["yes", "Yes", "YES", "no", "No", "NO", "on", "On", "ON", "off", "Off", "OFF"]

/-- No line ends after a text. -/
def EndsNoLine (text : String) : Prop := text.toList.getLast? ≠ some '\n'

variable {text : String}

theorem withoutLastBreak_eq (h : EndsNoLine text) : withoutLastBreak text.toList = text.toList := by
  rw [withoutLastBreak, beq_eq_false_iff_ne.mpr h]
  rfl

theorem matchesAll_words (ws : List String) (text : String) :
    (words ws).matchesAll text.toList = ws.contains text := by
  rw [words, Pattern.matchesAll_anyOf, List.any_map, List.contains_eq_any_beq]
  exact congrArg ws.any (funext fun w => Pattern.matchesAll_word w text)

/-- A rule for some words takes these. -/
theorem applies_iff {r : Rule} {ws : List String} (hpattern : r.pattern = words ws)
    (hbegins : ∀ w ∈ ws, r.begins w.toList.head? = true) (h : EndsNoLine text) :
    r.applies text.toList ↔ text ∈ ws := by
  rw [r.applies_eq, withoutLastBreak_eq h, hpattern, matchesAll_words, Bool.and_eq_true,
    List.contains_iff_mem]
  exact ⟨And.right, fun hmem => ⟨hbegins text hmem, hmem⟩⟩

theorem catalogBool_applies_iff (h : EndsNoLine text) :
    catalogBool.applies text.toList ↔ text ∈ truthTexts :=
  applies_iff rfl (by decide) h

theorem standardBool_applies_iff (h : EndsNoLine text) :
    standardBool.applies text.toList ↔ text ∈ truthTexts ∨ text ∈ switchTexts := by
  have hperm : ["yes", "Yes", "YES", "no", "No", "NO", "true", "True", "TRUE", "false", "False",
      "FALSE", "on", "On", "ON", "off", "Off", "OFF"].Perm (truthTexts ++ switchTexts) := by decide
  rw [applies_iff rfl (by decide) h, hperm.mem_iff, List.mem_append]

/-- No other rule takes a text that the usual rule for truth values takes. -/
theorem not_applies_of_mem : ∀ text ∈ truthTexts ++ switchTexts, ∀ r ∈ otherRules,
    r.applies text.toList = false := by
  decide +kernel

theorem tagBy_otherRules_of_mem (h : text ∈ truthTexts ++ switchTexts) :
    tagBy otherRules text.toList = .str := by
  rw [tagBy, find?_applies_eq_none (not_applies_of_mem text h)]
  rfl

theorem standardTag_eq (h : EndsNoLine text) : standardTag text =
    if text ∈ truthTexts ∨ text ∈ switchTexts then .bool else tagBy otherRules text.toList := by
  rw [standardTag, standardRules_eq, tagBy_cons]
  simp only [standardBool_applies_iff h]
  rfl

/-- The rule for truth values may as well come first. -/
theorem tag_eq (h : EndsNoLine text) :
    tag text = if text ∈ truthTexts then .bool else tagBy otherRules text.toList := by
  have hlast : catalogBool.applies text.toList → ∀ r ∈ otherRules, r.applies text.toList = false :=
    fun happlies => not_applies_of_mem text
      (List.mem_append_left _ ((catalogBool_applies_iff h).mp happlies))
  rw [tag, catalogRules_eq, tagBy_concat hlast, tagBy_cons]
  simp only [catalogBool_applies_iff h]
  rfl

/-! ## Plain scalars -/

theorem not_isBlank_of_mem_plainRun {inFlow : Bool} {cs : List Char} :
    ∀ c ∈ plainRun inFlow cs, isBlank c = false := by
  induction cs with
  | nil => nofun
  | cons c cs ih =>
    rw [plainRun]
    split
    · nofun
    · next hends =>
      simp only [Bool.or_eq_true, not_or, Bool.not_eq_true] at hends
      exact List.forall_mem_cons.mpr ⟨hends.1.1, ih⟩

/-- What is read of a plain scalar ends with one of its runs. -/
theorem not_isBlank_of_getLast?_plainFrom {inFlow : Bool} {indent : Int} {fuel : Nat} {c : Cursor}
    {gap : List Char} {ended : Bool} {x : Char}
    (h : (plainFrom inFlow indent fuel c gap ended).1.getLast? = some x) : isBlank x = false := by
  induction fuel generalizing c gap ended with
  | zero => nomatch h
  | succ fuel ih =>
    rw [plainFrom] at h
    generalize hrun : (if c.sees '#' then [] else plainRun inFlow c.rest) = run at h
    have hblank : ∀ x ∈ run, isBlank x = false := by
      subst hrun
      split
      · nofun
      · exact not_isBlank_of_mem_plainRun
    dsimp only at h
    split at h
    · nomatch h
    · next hne =>
      have hlast {front : List Char} (hx : (front ++ run).getLast? = some x) :
          isBlank x = false := by
        have hne' : run ≠ [] := by simpa using hne
        rw [List.getLast?_append, List.getLast?_eq_some_getLast hne', Option.some_or] at hx
        exact hblank x (Option.some.inj hx ▸ List.getLast_mem hne')
      split at h
      · exact hlast h
      · rw [List.getLast?_append, Option.or_eq_some_iff] at h
        obtain hmore | ⟨-, hrun⟩ := h
        · exact ih hmore
        · exact hlast hrun

/-- **No line ends after a plain scalar.** -/
theorem endsNoLine_plainText (inFlow : Bool) (indent : Int) (c : Cursor) :
    EndsNoLine (plainText inFlow indent c).1 := by
  intro h
  rw [plainText, String.toList_ofList] at h
  nomatch not_isBlank_of_getLast?_plainFrom h

/-- **A catalog types plain scalars as usual, but for truth values.**  Its table is the usual one
without the rule for these, and with a narrower one at the end. -/
theorem plain_scalar_tags :
    (∀ inFlow indent c, EndsNoLine (plainText inFlow indent c).1) ∧
    (∀ text, let first := text.toList.head?
      tag text = tagBy ((tried standardRules first).filter (·.tag != .bool) ++
        if first ∈ [some 't', some 'T', some 'f', some 'F'] then [catalogBool] else [])
        text.toList) ∧
    ∀ text, EndsNoLine text →
      (tag text = .bool ↔ text ∈ truthTexts) ∧
      (standardTag text = .bool ↔ text ∈ truthTexts ∨ text ∈ switchTexts) ∧
      (standardTag text = .bool → text ∉ truthTexts → tag text = .str) ∧
      (standardTag text ≠ .bool ∨ text ∈ truthTexts → tag text = standardTag text) := by
  refine ⟨endsNoLine_plainText, fun text => ?_, fun text h => ?_⟩
  · dsimp only
    rw [tag, ← tagBy_tried, tried_catalogRules]
  · have hother := tagBy_ne tag_ne_bool_of_mem nofun text.toList
    have hstring := @tagBy_otherRules_of_mem text
    rw [List.mem_append] at hstring
    rw [tag_eq h, standardTag_eq h]
    by_cases htruth : text ∈ truthTexts
    · simp [htruth]
    · by_cases hswitch : text ∈ switchTexts
      · simp [htruth, hswitch, hstring (.inr hswitch)]
      · simp [htruth, hswitch, hother]

end PlainScalar

end TypeCatalog.Yaml
