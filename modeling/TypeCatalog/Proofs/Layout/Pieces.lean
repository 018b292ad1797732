import Mathlib.Data.List.DropRight
import Mathlib.Data.List.Infix

/-!
# Proofs/Layout/Pieces — texts that are cut at their blank lines

`pieces` cuts a text at each blank line, from the left.  A block is made of lines of which none is
empty (`IsBlock`), so no blank line arises inside it or at its edges, and blocks with blank lines
between them are the pieces of the whole (`pieces_intercalate`).
-/

namespace TypeCatalog.Layout

/-! ## Cutting -/

/-- The characters of a text, cut at its blank lines. -/
def cut : List Char → List (List Char)
  | [] => [[]]
  | '\n' :: '\n' :: rest => [] :: cut rest
  | c :: rest => (cut rest).modifyHead (c :: ·)

/-- A character is kept unless it is the first of two line feeds. -/
theorem cut_cons {c : Char} {text : List Char} (h : c = '\n' → text.head? ≠ some '\n') :
    cut (c :: text) = (cut text).modifyHead (c :: ·) := by
  rw [cut]
  rintro rest hc rfl
  exact h hc rfl

/-- What has no line feed is kept. -/
theorem cut_line {line : List Char} (h : '\n' ∉ line) (rest : List Char) :
    cut (line ++ rest) = (cut rest).modifyHead (line ++ ·) := by
  induction line with
  | nil => exact (congrFun List.modifyHead_id _).symm
  | cons c line ih =>
    rw [List.cons_append, cut_cons fun hc => absurd hc (List.ne_of_not_mem_cons h).symm,
      ih (List.not_mem_of_not_mem_cons h), List.modifyHead_modifyHead]
    rfl

theorem length_cut_pos (text : List Char) : 0 < (cut text).length := by
  induction text using cut.induct with
  | case1 => exact Nat.one_pos
  | case2 rest ih => exact Nat.succ_pos _
  | case3 c rest h ih => rwa [cut, List.length_modifyHead]; exact h

/-- A text that holds a blank line is cut. -/
theorem one_lt_length_cut (before after : List Char) :
    1 < (cut (before ++ '\n' :: '\n' :: after)).length := by
  induction before with
  | nil => exact Nat.succ_lt_succ (length_cut_pos after)
  | cons c before ih =>
    rw [List.cons_append]
    generalize before ++ '\n' :: '\n' :: after = text at ih
    by_cases h : c = '\n' → text.head? ≠ some '\n'
    · rwa [cut_cons h, List.length_modifyHead]
    · obtain ⟨rfl, htext⟩ := Classical.not_imp.mp h
      obtain ⟨rest, rfl⟩ := List.head?_eq_some_iff.mp (not_not.mp htext)
      exact Nat.succ_lt_succ (length_cut_pos rest)

/-! ## Texts that are put together -/

/-- What is put behind a text is taken off it. -/
theorem rdrop_append (text ending : List Char) :
    (text ++ ending).rdrop ending.length = text := by
  simp [List.rdrop]

/-- What holds of texts and of a mark holds of the texts with the mark between them, if it holds of
what they are put together to. -/
theorem intercalate_closed {P : String → Prop} (empty : P "")
    (append : ∀ {s t}, P s → P t → P (s ++ t)) {mark : String} (hmark : P mark)
    {texts : List String} (h : ∀ t ∈ texts, P t) : P (mark.intercalate texts) := by
  induction texts with
  | nil => exact empty
  | cons text texts ih =>
    obtain ⟨htext, htexts⟩ := List.forall_mem_cons.mp h
    cases texts with
    | nil => rwa [String.intercalate_singleton]
    | cons second texts =>
      rw [String.intercalate_cons_cons]
      exact append (append htext hmark) (ih htexts)

/-- Texts with a mark between them hold no other characters than they and the mark do. -/
theorem not_mem_intercalate {c : Char} {mark : String} {texts : List String}
    (hmark : c ∉ mark.toList) (h : ∀ text ∈ texts, c ∉ text.toList) :
    c ∉ (mark.intercalate texts).toList :=
  intercalate_closed (P := fun text => c ∉ text.toList) (by simp)
    (fun hs ht => by simp [hs, ht]) hmark h

/-- A text has none of the characters. -/
def Lacks (chars : List Char) (text : String) : Prop := ∀ c ∈ chars, c ∉ text.toList

instance (chars : List Char) (text : String) : Decidable (Lacks chars text) :=
  List.decidableBAll (fun c => c ∉ text.toList) chars

theorem Lacks.mono {chars chars' : List Char} {text : String} (h : Lacks chars text)
    (hsubset : chars' ⊆ chars) : Lacks chars' text := fun c hc => h c (hsubset hc)

theorem Lacks.append {chars : List Char} {text text' : String} (h : Lacks chars text)
    (h' : Lacks chars text') : Lacks chars (text ++ text') := fun c hc => by
  rw [String.toList_append, List.mem_append]
  exact fun hmem => hmem.elim (h c hc) (h' c hc)

theorem Lacks.ne {chars : List Char} {text : String} (h : Lacks chars text) {c : Char}
    (hc : c ∈ text.toList) (mark : Char) (hmark : mark ∈ chars) : c ≠ mark :=
  fun heq => h mark hmark (heq ▸ hc)

/-! ## Blocks -/

/-- A text stands on one line: it has no line feed. -/
def OneLine (text : String) : Prop := '\n' ∉ text.toList

instance (text : String) : Decidable (OneLine text) := inferInstanceAs (Decidable (_ ∉ _))

theorem OneLine.append {text text' : String} (h : OneLine text) (h' : OneLine text') :
    OneLine (text ++ text') := by
  rw [OneLine, String.toList_append, List.mem_append]
  exact fun hmem => hmem.elim h h'

theorem OneLine.intercalate {mark : String} {texts : List String} (hmark : OneLine mark)
    (h : ∀ text ∈ texts, OneLine text) : OneLine (mark.intercalate texts) :=
  not_mem_intercalate hmark h

/-- A line: not empty, and one only. -/
structure IsLine (text : String) : Prop where
  ne_empty : text ≠ ""
  oneLine : OneLine text

instance (text : String) : Decidable (IsLine text) :=
  decidable_of_iff (text ≠ "" ∧ OneLine text) ⟨fun h => ⟨h.1, h.2⟩, fun h => ⟨h.1, h.2⟩⟩

theorem IsLine.append {text text' : String} (h : IsLine text) (h' : OneLine text') :
    IsLine (text ++ text') :=
  ⟨fun hempty => h.ne_empty (String.append_eq_empty_iff.mp hempty).1, h.oneLine.append h'⟩

/-- Lines that make no blank line when they are joined: there are some, and none is empty. -/
structure IsBlock (lines : List String) : Prop where
  ne_nil : lines ≠ []
  isLine : ∀ l ∈ lines, IsLine l

/-- Lines, joined. -/
def joined (lines : List String) : List Char := ("\n".intercalate lines).toList

theorem joined_singleton (line : String) : joined [line] = line.toList := by
  simp [joined]

theorem joined_cons {lines : List String} (h : lines ≠ []) (line : String) :
    joined (line :: lines) = line.toList ++ '\n' :: joined lines := by
  obtain ⟨second, rest, rfl⟩ := List.exists_cons_of_ne_nil h
  simp [joined, String.intercalate_cons_cons]

namespace IsBlock

variable {lines : List String}

theorem tail {line : String} (h : IsBlock (line :: lines)) (hne : lines ≠ []) : IsBlock lines :=
  ⟨hne, fun l hl => h.isLine l (List.mem_cons_of_mem _ hl)⟩

/-- A block starts with a character of its first line. -/
theorem head? (h : IsBlock lines) (rest : List Char) :
    ∃ c, (joined lines ++ rest).head? = some c ∧ c ≠ '\n' := by
  obtain ⟨line, others, rfl⟩ := List.exists_cons_of_ne_nil h.ne_nil
  obtain ⟨hempty, hfeed⟩ := h.isLine line List.mem_cons_self
  obtain ⟨c, cs, hline⟩ := List.exists_cons_of_ne_nil (mt String.toList_eq_nil_iff.mp hempty)
  rw [OneLine, hline] at hfeed
  refine ⟨c, ?_, (List.ne_of_not_mem_cons hfeed).symm⟩
  cases others with
  | nil => rw [joined_singleton, hline]; rfl
  | cons second others => rw [joined_cons (List.cons_ne_nil _ _), hline]; rfl

/-- **A block is not cut.** -/
theorem cut_append (h : IsBlock lines) (rest : List Char) :
    cut (joined lines ++ rest) = (cut rest).modifyHead (joined lines ++ ·) := by
  induction lines with
  | nil => exact absurd rfl h.ne_nil
  | cons line lines ih =>
    have hline := (h.isLine line List.mem_cons_self).oneLine
    by_cases hlines : lines = []
    · rw [hlines, joined_singleton, cut_line hline]
    · have hblock := h.tail hlines
      obtain ⟨c, hc, hne⟩ := hblock.head? rest
      rw [joined_cons hlines, List.append_assoc, cut_line hline, List.cons_append, cut_cons,
        ih hblock, List.modifyHead_modifyHead, List.modifyHead_modifyHead]
      · simp [Function.comp_def]
      · rintro -
        simp [hc, hne]

end IsBlock

/-! ## Blocks with blank lines between them -/

/-- A text, cut at its blank lines. -/
def pieces (text : String) : List String := (cut text.toList).map String.ofList

/-- A block in front of a blank line is the first piece. -/
theorem IsBlock.cut_blank {lines : List String} (h : IsBlock lines) (rest : List Char) :
    cut (joined lines ++ '\n' :: '\n' :: rest) = joined lines :: cut rest := by
  rw [h.cut_append, cut, List.modifyHead_cons, List.append_nil]

theorem IsBlock.cut_joined {lines : List String} (h : IsBlock lines) :
    cut (joined lines) = [joined lines] := by
  have hcut := h.cut_append []
  rwa [List.append_nil, cut, List.modifyHead_cons, List.append_nil] at hcut

/-- A block holds no blank line. -/
theorem IsBlock.not_blank {lines : List String} (h : IsBlock lines) :
    ¬ "\n\n".toList <:+: ("\n".intercalate lines).toList := by
  rintro ⟨before, after, htext⟩
  have hlong := one_lt_length_cut before after
  rw [List.append_assoc] at htext
  change before ++ '\n' :: '\n' :: after = joined lines at htext
  rw [htext, h.cut_joined] at hlong
  exact absurd hlong (Nat.lt_irrefl 1)

theorem IsBlock.ne_empty_text {lines : List String} (h : IsBlock lines) :
    "\n".intercalate lines ≠ "" := by
  intro hempty
  obtain ⟨c, hc, -⟩ := h.head? []
  rw [joined, hempty] at hc
  cases hc

/-- **Blocks are the pieces of the text that has blank lines between them.** -/
theorem pieces_intercalate {blocks : List (List String)} (hne : blocks ≠ [])
    (h : ∀ lines ∈ blocks, IsBlock lines) :
    pieces ("\n\n".intercalate (blocks.map ("\n".intercalate ·))) =
      blocks.map ("\n".intercalate ·) := by
  have hcut : cut ("\n\n".intercalate (blocks.map ("\n".intercalate ·))).toList =
      blocks.map joined := by
    induction blocks with
    | nil => exact absurd rfl hne
    | cons lines blocks ih =>
      obtain ⟨hlines, hblocks⟩ := List.forall_mem_cons.mp h
      cases blocks with
      | nil =>
        rw [List.map_singleton, List.map_singleton, String.intercalate_singleton]
        exact hlines.cut_joined
      | cons second blocks =>
        rw [List.map_cons, List.map_cons, String.intercalate_cons_cons, String.toList_append,
          String.toList_append, List.append_assoc]
        rw [List.map_cons, ← ih (List.cons_ne_nil _ _) hblocks]
        exact hlines.cut_blank _
  rw [pieces, hcut, List.map_map]
  exact List.map_congr_left fun lines _ => String.ofList_toList

/-- What stands between the two braces of a namespace, as declarations: nothing makes none. -/
def declarationPieces (inner : String) : List String := if inner = "" then [] else pieces inner

/-- …also if there are none. -/
theorem declarationPieces_intercalate {blocks : List (List String)}
    (h : ∀ lines ∈ blocks, IsBlock lines) :
    declarationPieces ("\n\n".intercalate (blocks.map ("\n".intercalate ·))) =
      blocks.map ("\n".intercalate ·) := by
  cases blocks with
  | nil => rfl
  | cons lines blocks =>
    have hpieces := pieces_intercalate (List.cons_ne_nil lines blocks) h
    rw [declarationPieces, if_neg, hpieces]
    intro hempty
    rw [hempty] at hpieces
    exact (h lines List.mem_cons_self).ne_empty_text (List.cons.inj hpieces).1.symm

/-! ## Lines -/

/-- The lines of a text: what stands between its line feeds. -/
def linesOf (text : String) : List String := (text.toList.splitOn '\n').map String.ofList

/-- **Lines that are joined are the lines of the whole.** -/
theorem linesOf_intercalate {lines : List String} (hne : lines ≠ []) (h : ∀ l ∈ lines, OneLine l) :
    linesOf ("\n".intercalate lines) = lines := by
  have hsplit : ("\n".intercalate lines).toList.splitOn '\n' = lines.map String.toList := by
    rw [String.toList_intercalate]
    exact List.splitOn_intercalate '\n' (List.forall_mem_map.mpr h) (mt List.map_eq_nil_iff.mp hne)
  rw [linesOf, hsplit, List.map_map]
  exact (List.map_congr_left fun l _ => String.ofList_toList).trans (List.map_id lines)

theorem IsBlock.linesOf_intercalate {lines : List String} (h : IsBlock lines) :
    linesOf ("\n".intercalate lines) = lines :=
  Layout.linesOf_intercalate h.ne_nil fun l hl => (h.isLine l hl).oneLine

/-- The lines of a block can be told from its text. -/
theorem IsBlock.lines_inj {lines lines' : List String} (h : IsBlock lines) (h' : IsBlock lines')
    (heq : "\n".intercalate lines = "\n".intercalate lines') : lines = lines' := by
  rw [← h.linesOf_intercalate, heq, h'.linesOf_intercalate]

end TypeCatalog.Layout
