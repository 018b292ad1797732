import TypeCatalog.Log.Line
import Mathlib.Data.List.Basic

/-!
# Proofs/Log/Levels — which logger has which level

Once the settings are chosen, only the program's logger and the root have levels of their own
(`FollowsSettings`). A logger below the program's is one whose name goes on with a dot; it has the
level of the program's (`effectiveLevel_eq_threshold`), unless two dots come in a row: then the
search for the logger above may pass over the program's.  What is decided for such names depends on
the loggers in use, but never goes beyond the two levels there are (`decides_takes`).
-/

namespace TypeCatalog.Log

/-- The level of the program's logger. -/
def Settings.ownLevel (s : Settings) : Level := if s.verbose then .debug else .warning

/-- Whether a name goes on with two dots after that of the program's logger. -/
def isDoublyDotted (logger : String) : Bool :=
  (ownLogger ++ "..").toList.isPrefixOf logger.toList

/-- What may be decided of a logger and a level: that the level reaches the threshold.  For names
with two dots it is left open whether they are the program's. -/
structure Decides (s : Settings) (logger : String) (level : Level) (taken : Bool) : Prop where
  exact : isDoublyDotted logger = false → taken = decide ((s.threshold logger).rank ≤ level.rank)
  above : Level.warning.rank ≤ level.rank → taken = true
  below : s.verbose = false → level.rank < Level.warning.rank → taken = false

namespace Loggers

/-- Loggers as they are after settings are chosen, whatever happens before they are chosen anew. -/
structure FollowsSettings (l : Loggers) (s : Settings) : Prop where
  rootLevel : l.rootLevel = .warning
  levels : l.levels = [(ownLogger, s.ownLevel)]
  used : l.names.contains ownLogger
  decided : ∀ logger level taken, l.decided.lookup (logger, level) = some taken →
    Decides s logger level taken

variable {l : Loggers} {s : Settings}

/-! ## The level from above -/

theorem FollowsSettings.lookup_levels (h : l.FollowsSettings s) (logger : String) :
    l.levels.lookup logger = if logger = ownLogger then some s.ownLevel else none := by
  rw [h.levels, List.lookup_cons, List.lookup_nil]
  by_cases heq : logger = ownLogger
  · rw [if_pos heq, beq_iff_eq.mpr heq]
  · rw [if_neg heq, beq_eq_false_iff_ne.mpr heq]

/-- No other level comes from above. -/
theorem FollowsSettings.inherited_or (h : l.FollowsSettings s) (text : List Char) :
    l.inherited text = s.ownLevel ∨ l.inherited text = .warning := by
  fun_induction l.inherited text with
  | case1 c rest above hused ih =>
    rw [h.lookup_levels]
    split
    · exact .inl rfl
    · exact ih
  | case2 c rest above hunused ih => exact ih
  | case3 c rest hdot ih => exact ih
  | case4 => exact .inr h.rootLevel

/-- Below the program's logger stands only what has its name and a dot in front. -/
theorem FollowsSettings.inherited_eq_warning (h : l.FollowsSettings s) (text : List Char)
    (hown : ¬ ['t', 's', 'g', 'e', 'n', '.'] <+: text.reverse) : l.inherited text = .warning := by
  fun_induction l.inherited text with
  | case1 c rest above hused ih =>
    have habove : above ≠ ownLogger := by
      intro heq
      have hchars : (c :: rest).reverse = ['t', 's', 'g', 'e', 'n'] := by
        rw [← String.toList_ofList (l := (c :: rest).reverse)]
        exact congrArg String.toList heq
      rw [List.reverse_cons, hchars] at hown
      exact hown (List.prefix_refl _)
    rw [h.lookup_levels, if_neg habove]
    refine ih fun hstart => hown (hstart.trans ?_)
    rw [List.reverse_cons (a := '.')]
    exact List.prefix_append _ _
  | case2 c rest above hunused ih =>
    refine ih fun hstart => hown (hstart.trans ?_)
    rw [List.reverse_cons, List.reverse_cons, List.append_assoc]
    exact List.prefix_append _ _
  | case3 c rest hdot ih =>
    refine ih fun hstart => hown (hstart.trans ?_)
    rw [List.reverse_cons]
    exact List.prefix_append _ _
  | case4 => exact h.rootLevel

theorem inherited_cons {c : Char} (hc : c ≠ '.') (rest : List Char) :
    l.inherited (c :: rest) = l.inherited rest := by
  rw [inherited]
  rintro d rest' rfl
  exact absurd rfl hc

/-- The search from below meets the program's logger, if no dot comes before its own. -/
theorem FollowsSettings.inherited_eq_ownLevel (h : l.FollowsSettings s) : (below : List Char) →
    below.getLast? ≠ some '.' → l.inherited (below ++ ".negst".toList) = s.ownLevel
  | [], _ => by
    change (if l.names.contains ownLogger then (l.levels.lookup ownLogger).getD _ else _) = _
    rw [if_pos h.used, h.lookup_levels, if_pos rfl]
    rfl
  | [c], hlast => by
    have hc : c ≠ '.' := fun heq => hlast (congrArg some heq)
    rw [List.singleton_append, inherited_cons hc]
    exact h.inherited_eq_ownLevel [] nofun
  | c :: d :: below, hlast => by
    have hcons := h.inherited_eq_ownLevel (d :: below) (by simpa using hlast)
    rw [List.cons_append, List.cons_append]
    rw [List.cons_append] at hcons
    by_cases hc : c = '.'
    · have hbelow := h.inherited_eq_ownLevel below (by
        cases below with
        | nil => nofun
        | cons e below => simpa using hlast)
      -- What is above this dot is longer than the name of the program's logger.
      have habove : String.ofList (d :: (below ++ ".negst".toList)).reverse ≠ ownLogger := by
        intro heq
        have hlength := congrArg String.length heq
        rw [String.length_ofList, List.length_reverse, List.length_cons,
          List.length_append] at hlength
        have htail : ".negst".toList.length = 6 := rfl
        have hown : ownLogger.length = 5 := rfl
        omega
      rw [hc, inherited, h.lookup_levels, if_neg habove, Option.getD_none, hcons, hbelow, ite_self]
    · rw [inherited_cons hc, hcons]

/-! ## Levels of loggers -/

theorem isOwn_iff {logger : String} : isOwn logger ↔
    logger = ownLogger ∨ (ownLogger ++ ".").toList <+: logger.toList := by
  rw [isOwn, Bool.or_eq_true, beq_iff_eq, List.isPrefixOf_iff_prefix]

theorem isRoot_iff {logger : String} : isRoot logger ↔ logger = "" ∨ logger = "root" := by
  rw [isRoot, Bool.or_eq_true, beq_iff_eq, beq_iff_eq]

theorem isOwn_of_isRoot {logger : String} (h : isRoot logger) : isOwn logger = false := by
  obtain rfl | rfl := isRoot_iff.mp h <;> rfl

theorem threshold_of_not_own {logger : String} (h : isOwn logger = false) :
    s.threshold logger = .warning := by
  rw [Settings.threshold, h, Bool.and_false]
  rfl

theorem threshold_of_own {logger : String} (h : isOwn logger) :
    s.threshold logger = s.ownLevel := by
  rw [Settings.threshold, h, Bool.and_true, Settings.ownLevel]

theorem FollowsSettings.effectiveLevel_or (h : l.FollowsSettings s) (logger : String) :
    l.effectiveLevel logger = s.ownLevel ∨ l.effectiveLevel logger = .warning := by
  rw [effectiveLevel, h.lookup_levels]
  split
  · exact .inr h.rootLevel
  split
  · exact .inl rfl
  · exact h.inherited_or _

/-- **The level of a logger is the threshold that the settings say**, unless its name has two dots
after that of the program's. -/
theorem FollowsSettings.effectiveLevel_eq_threshold (h : l.FollowsSettings s) {logger : String}
    (hdots : isDoublyDotted logger = false) : l.effectiveLevel logger = s.threshold logger := by
  rw [effectiveLevel, h.lookup_levels]
  split
  · next hroot => rw [h.rootLevel, threshold_of_not_own (isOwn_of_isRoot hroot)]
  split
  · next heq => rw [threshold_of_own (isOwn_iff.mpr (.inl heq)), Option.getD_some]
  next hne =>
  rw [Option.getD_none]
  by_cases hown : isOwn logger
  · obtain ⟨below, hbelow⟩ := (isOwn_iff.mp hown).resolve_left hne
    rw [threshold_of_own hown, ← hbelow, List.reverse_append]
    refine h.inherited_eq_ownLevel below.reverse fun hdot => ?_
    rw [List.getLast?_reverse] at hdot
    obtain ⟨rest, rfl⟩ := List.head?_eq_some_iff.mp hdot
    have hdotted : isDoublyDotted logger := by
      rw [isDoublyDotted, ← hbelow, List.isPrefixOf_iff_prefix]
      exact List.prefix_append _ rest
    rw [hdots] at hdotted
    cases hdotted
  · rw [threshold_of_not_own (Bool.eq_false_iff.mpr hown)]
    refine h.inherited_eq_warning _ ?_
    rw [List.reverse_reverse]
    exact fun hstart => hown (isOwn_iff.mpr (.inr hstart))

/-! ## Decisions -/

/-- Settings are followed once they are chosen, if no other logger had a level. -/
theorem followsSettings_chosen (l : Loggers) (s : Settings)
    (hlevels : l.levels.filter (·.1 != ownLogger) = []) :
    ((l.setRootLevel .warning).setLevel ownLogger
      (if s.verbose then .debug else .warning)).FollowsSettings s where
  rootLevel := by
    rw [setLevel, Loggers.use]
    split <;> rfl
  levels := by
    change (ownLogger, s.ownLevel) :: l.levels.filter (·.1 != ownLogger) = _
    rw [hlevels]
  used := by
    rw [setLevel, Loggers.use]
    split
    · next h => exact h
    · exact List.contains_iff_mem.mpr List.mem_cons_self
  decided := nofun

theorem FollowsSettings.use (h : l.FollowsSettings s) (logger : String) :
    (l.use logger).FollowsSettings s := by
  rw [Loggers.use]
  split
  · exact h
  · exact ⟨h.rootLevel, h.levels, by
      rw [List.contains_cons, h.used, Bool.or_true], h.decided⟩

/-- **Whether a logger takes events of a level is decided as the settings say.** -/
theorem FollowsSettings.decides_takes (h : l.FollowsSettings s) (logger : String) (level : Level) :
    Decides s logger level (l.takes logger level) := by
  rw [takes]
  cases hdecided : l.decided.lookup (logger, level) with
  | some taken => exact h.decided logger level taken hdecided
  | none =>
    have hlevel := h.effectiveLevel_or logger
    rw [Option.getD_none]
    refine ⟨fun hdots => by rw [h.effectiveLevel_eq_threshold hdots], fun habove => ?_,
      fun hverbose hbelow => ?_⟩
    · have hown : s.ownLevel.rank ≤ Level.warning.rank := by
        rw [Settings.ownLevel]
        split <;> decide
      obtain hlevel | hlevel := hlevel
      · exact decide_eq_true (hlevel ▸ Nat.le_trans hown habove)
      · exact decide_eq_true (hlevel ▸ habove)
    · have hown : s.ownLevel = .warning := by rw [Settings.ownLevel, hverbose]; rfl
      rw [hown, or_self] at hlevel
      exact decide_eq_false (hlevel ▸ Nat.not_le.mpr hbelow)

theorem FollowsSettings.settle (h : l.FollowsSettings s) (logger : String) (level : Level) :
    (l.settle logger level).FollowsSettings s where
  rootLevel := h.rootLevel
  levels := h.levels
  used := h.used
  decided logger' level' taken hlookup := by
    rw [Loggers.settle, List.lookup_cons] at hlookup
    split at hlookup
    · next heq =>
      obtain ⟨rfl, rfl⟩ := Prod.mk.inj (eq_of_beq heq)
      cases hlookup
      exact h.decides_takes _ _
    · exact h.decided _ _ _ hlookup

end Loggers

end TypeCatalog.Log
