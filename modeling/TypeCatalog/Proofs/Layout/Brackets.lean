import TypeCatalog.Proofs.Layout.Declarations

/-!
# Proofs/Layout/Brackets — brackets are closed in the order in which they were opened

`openAfter` runs over a text with a stack of the brackets that are open, and stops at one that
closes any but the innermost.  What a text does to the stack is told by `Turns`: it closes the
brackets in front of it and leaves open those behind it, whatever is open further down.  Types and
the lines of members leave the stack as it is, a header opens a brace, and the last line of a block
closes it.  So no declaration closes a bracket that it has not opened, and the brace of the
namespace stays open up to its own end (`generate_balanced`).
-/

namespace TypeCatalog

namespace Layout

/-! ## Open brackets -/

/-- The bracket that a closing bracket closes. -/
def opener? : Char → Option Char
  | '\x7d' => some '\x7b'
  | ']' => some '['
  | '>' => some '<'
  | _ => none

/-- The brackets that open. -/
def openers : List Char := ['\x7b', '[', '<']

/-- The brackets. -/
def brackets : List Char := ['\x7b', '\x7d', '[', ']', '<', '>']

/-- The brackets that are open behind a character, the innermost first; none if the character closes
any but the innermost in front of it. -/
def openBehind (opened : List Char) (c : Char) : Option (List Char) :=
  if c ∈ openers then some (c :: opened)
  else match opener? c with
    | none => some opened
    | some opener => if opened.head? = some opener then some opened.tail else none

/-- The brackets that are open behind a text. -/
def openAfter (opened text : List Char) : Option (List Char) := text.foldlM openBehind opened

/-- **The brackets of a text are matched and nested.** -/
def Balanced (text : String) : Prop := openAfter [] text.toList = some []

/-- How many braces are open behind a text. -/
def braceDepth (text : List Char) : ℤ := text.count '\x7b' - text.count '\x7d'

/-- Brackets are followed through a text in two parts. -/
theorem openAfter_append (opened text text' : List Char) :
    openAfter opened (text ++ text') = (openAfter opened text).bind (openAfter · text') :=
  List.foldlM_append

theorem opener?_eq_none {c : Char} (h : c ∉ brackets) : opener? c = none := by
  rw [opener?]
  all_goals
    rintro rfl
    exact h (by decide)

/-- A character that is no bracket opens and closes nothing. -/
theorem openBehind_of_lacks {c : Char} (h : c ∉ brackets) (opened : List Char) :
    openBehind opened c = some opened := by
  rw [openBehind, if_neg fun hc => h ((show openers ⊆ brackets by decide) hc), opener?_eq_none h]

/-- A character opens a bracket, closes the innermost or is none. -/
theorem openBehind_eq_some {opened after : List Char} {c : Char}
    (h : openBehind opened c = some after) :
    c ∈ openers ∧ after = c :: opened ∨
      (∃ opener, opener? c = some opener ∧ opened = opener :: after) ∨
      c ∉ openers ∧ opener? c = none ∧ after = opened := by
  rw [openBehind] at h
  split at h
  next hopens => exact .inl ⟨hopens, (Option.some.inj h).symm⟩
  next hopens =>
    split at h
    next hnone => exact .inr (.inr ⟨hopens, hnone, (Option.some.inj h).symm⟩)
    next opener hopener =>
      split at h
      next hhead =>
        obtain rfl := Option.some.inj h
        obtain ⟨rest, rfl⟩ := List.head?_eq_some_iff.mp hhead
        exact .inr (.inl ⟨opener, hopener, rfl⟩)
      · cases h

/-! ## How deep a text stands in braces -/

/-- The depth of braces after a text is that of its parts together. -/
theorem braceDepth_append (text text' : List Char) :
    braceDepth (text ++ text') = braceDepth text + braceDepth text' := by
  simp only [braceDepth, List.count_append]
  omega

theorem braceDepth_opener {c : Char} (h : c ∈ openers) (opened : List Char) :
    ((c :: opened).count '\x7b' : ℤ) = opened.count '\x7b' + braceDepth [c] := by
  have hne : c ≠ '\x7d' := by
    rintro rfl
    exact absurd h (by decide)
  simp [braceDepth, List.count_cons, hne]

theorem braceDepth_closing {c opener : Char} (h : opener? c = some opener) (opened : List Char) :
    (opened.count '\x7b' : ℤ) = (opener :: opened).count '\x7b' + braceDepth [c] := by
  unfold opener? at h
  split at h <;> cases h
  case h_1 =>
    rw [List.count_cons_self, Int.natCast_succ]
    exact (Int.add_neg_cancel_right _ 1).symm
  all_goals exact (Int.add_zero _).symm

theorem braceDepth_other {c : Char} (hopens : c ∉ openers) (hcloses : opener? c = none) :
    braceDepth [c] = 0 := by
  have hopening : c ≠ '\x7b' := by
    rintro rfl
    exact hopens (by decide)
  have hclosing : c ≠ '\x7d' := by
    rintro rfl
    cases hcloses
  simp [braceDepth, hopening, hclosing]

/-- The braces that are open behind a text are those in front of it and those that it leaves. -/
theorem count_openAfter {opened after text : List Char} (h : openAfter opened text = some after) :
    (after.count '\x7b' : ℤ) = opened.count '\x7b' + braceDepth text := by
  induction text generalizing opened with
  | nil =>
    obtain rfl := Option.some.inj h
    simp [braceDepth]
  | cons c text ih =>
    obtain ⟨between, hc, htext⟩ := Option.bind_eq_some_iff.mp h
    have hstep : (between.count '\x7b' : ℤ) = opened.count '\x7b' + braceDepth [c] := by
      obtain ⟨hopens, rfl⟩ | ⟨opener, hopener, rfl⟩ | ⟨hopens, hcloses, rfl⟩ :=
        openBehind_eq_some hc
      · exact braceDepth_opener hopens opened
      · exact braceDepth_closing hopener between
      · rw [braceDepth_other hopens hcloses, Int.add_zero]
    rw [ih htext, hstep, Int.add_assoc, ← braceDepth_append]
    rfl

variable {s t : String}

/-- At no place in a balanced text have more braces been closed than opened. -/
theorem Balanced.braceDepth_nonneg (h : Balanced t) {front : List Char}
    (hfront : front <+: t.toList) : 0 ≤ braceDepth front := by
  obtain ⟨rest, hrest⟩ := hfront
  rw [Balanced, ← hrest, openAfter_append] at h
  obtain ⟨after, hafter, -⟩ := Option.bind_eq_some_iff.mp h
  have := count_openAfter hafter
  rw [List.count_nil] at this
  omega

/-- What stands in a text without brackets opens and closes none. -/
theorem braceDepth_eq_zero (h : Lacks brackets t) {front : List Char}
    (hfront : front <+: t.toList) : braceDepth front = 0 := by
  have hlacks : ∀ c ∈ brackets, front.count c = 0 := fun c hc =>
    List.count_eq_zero_of_not_mem fun hmem => h c hc (hfront.subset hmem)
  rw [braceDepth, hlacks _ (by decide), hlacks _ (by decide), Int.sub_self]

/-! ## What a text does to the brackets that are open -/

/-- Behind a text, `after` is open in place of `before`, whatever is open besides. -/
def Turns (before : List Char) (text : String) (after : List Char) : Prop :=
  ∀ further, openAfter (before ++ further) text.toList = some (after ++ further)

/-- A text closes what it opens, and nothing else. -/
def Restores (text : String) : Prop := Turns [] text []

/-- Behind lines, `after` is open in place of `before`, whatever is open besides. -/
def LinesTurn (before : List Char) (lines : List String) (after : List Char) : Prop :=
  ∀ further, lines.foldlM (fun opened l => openAfter opened l.toList) (before ++ further) =
    some (after ++ further)

variable {before between after : List Char} {lines lines' : List String}

theorem Turns.append (hs : Turns before s between) (ht : Turns between t after) :
    Turns before (s ++ t) after := fun further => by
  rw [String.toList_append, openAfter_append, hs further]
  exact ht further

theorem Turns.braceDepth_eq (h : Turns before t after) :
    braceDepth t.toList = after.count '\x7b' - before.count '\x7b' := by
  have := count_openAfter (h [])
  simp only [List.append_nil] at this
  omega

namespace Restores

theorem turns (h : Restores t) : Turns before t before := fun further => h (before ++ further)

theorem balanced (h : Restores t) : Balanced t := h []

/-- A text without brackets restores what is open. -/
theorem of_lacks (h : Lacks brackets t) : Restores t := by
  intro opened
  have hplain : ∀ c ∈ t.toList, c ∉ brackets := fun c hc hbracket => h c hbracket hc
  change openAfter opened t.toList = some opened
  generalize t.toList = text at hplain
  induction text with
  | nil => rfl
  | cons c text ih =>
    obtain ⟨hc, htext⟩ := List.forall_mem_cons.mp hplain
    rw [openAfter, List.foldlM_cons, openBehind_of_lacks hc]
    exact ih htext

/-- What restores what is open may be put together. -/
theorem append (hs : Restores s) (ht : Restores t) : Restores (s ++ t) := Turns.append hs ht

theorem intercalate {mark : String} {texts : List String} (hmark : Lacks brackets mark)
    (h : ∀ t ∈ texts, Restores t) : Restores (mark.intercalate texts) :=
  intercalate_closed (of_lacks (by decide)) append (of_lacks hmark) h

theorem angles (h : Restores t) : Restores ("<" ++ t ++ ">") :=
  have hopens : Turns [] "<" ['<'] := fun _ => rfl
  have hcloses : Turns ['<'] ">" [] := fun _ => rfl
  (hopens.append h.turns).append hcloses

end Restores

namespace LinesTurn

/-- Lines go on from what the lines before them leave open. -/
theorem append (h : LinesTurn before lines between) (h' : LinesTurn between lines' after) :
    LinesTurn before (lines ++ lines') after := fun further => by
  rw [List.foldlM_append, h further]
  exact h' further

theorem singleton (h : Turns before t after) : LinesTurn before [t] after := fun further => by
  rw [List.foldlM_cons, h further]
  rfl

/-- Lines that each restore what is open do so together. -/
theorem of_forall (h : ∀ l ∈ lines, Restores l) : LinesTurn before lines before := by
  intro further
  induction lines with
  | nil => rfl
  | cons l lines ih =>
    obtain ⟨hl, hlines⟩ := List.forall_mem_cons.mp h
    rw [List.foldlM_cons, hl.turns further]
    exact ih hlines

/-- Lines that are balanced alone are so inside any block. -/
theorem inside (h : LinesTurn [] lines []) : LinesTurn before lines before :=
  fun further => h (before ++ further)

/-- A block: what the first line opens is closed by the last one. -/
theorem block {first last : String} (hfirst : Turns [] first between)
    (h : ∀ l ∈ lines, Restores l) (hlast : Turns between last []) :
    LinesTurn [] ([first] ++ lines ++ [last]) [] :=
  ((singleton hfirst).append (of_forall h)).append (singleton hlast)

end LinesTurn

theorem openAfter_intercalate (lines : List String) (opened : List Char) :
    openAfter opened ("\n".intercalate lines).toList =
      lines.foldlM (fun opened l => openAfter opened l.toList) opened := by
  induction lines generalizing opened with
  | nil => rfl
  | cons l lines ih =>
    cases lines with
    | nil => simp [String.intercalate_singleton]
    | cons second lines =>
      have hfeed : ∀ after, openAfter after "\n".toList = some after :=
        Restores.of_lacks (by decide)
      rw [String.intercalate_cons_cons, String.toList_append, String.toList_append,
        openAfter_append, openAfter_append]
      simp only [hfeed, Option.bind_fun_some]
      exact congrArg (openAfter opened l.toList).bind (funext ih)

/-- Lines restore what is open also when they are joined. -/
theorem LinesTurn.restores (h : LinesTurn [] lines []) : Restores ("\n".intercalate lines) :=
  fun further => (openAfter_intercalate lines _).trans (h further)

end Layout

open Layout Log

/-! ## Types and lines -/

/-- A type is balanced if its names have no brackets. -/
theorem TypeTree.restores_text {t : TypeTree} (h : ∀ n ∈ t.names, Lacks brackets n) :
    Restores t.text :=
  text_closed .append (fun _ htexts => .angles (.intercalate (by decide) htexts)) (fun _ => rfl)
    (fun _ htexts => .intercalate (by decide) htexts) fun n hn => .of_lacks (h n hn)

theorem restores_memberKey {name : String} (h : Lacks brackets name) :
    Restores (memberKey name) := by
  rw [memberKey]
  split
  · exact (Restores.append (.of_lacks (by decide)) (.of_lacks h)).append (.of_lacks (by decide))
  · exact .of_lacks h

theorem restores_literal {representation : String} (h : Lacks brackets representation) :
    Restores (literal representation) := by
  rw [literal]
  split
  · exact .of_lacks h
  · exact (Restores.append (.of_lacks (by decide)) (.of_lacks h)).append (.of_lacks (by decide))

theorem Member.restores_line {m : Member} (hname : Lacks brackets m.name)
    (hrepresentation : Lacks brackets m.representation) : Restores m.line :=
  ((((Restores.of_lacks (by decide)).append (restores_memberKey hname)).append
    (.of_lacks (by decide))).append (.of_lacks hrepresentation)).append (.of_lacks (by decide))

/-- A member is balanced. -/
theorem MemberTree.restores_line {m : MemberTree} {indent : String}
    (hindent : Lacks brackets indent) (h : ∀ n ∈ m.names, Lacks brackets n) :
    Restores (m.line indent) := by
  obtain ⟨hname, htype⟩ := List.forall_mem_cons.mp h
  have hmark : Lacks brackets (if m.optional then "?" else "") := by split <;> decide
  exact ((((Restores.of_lacks hindent).append (restores_memberKey hname)).append
    (.of_lacks hmark)).append (.of_lacks (by decide))).append (TypeTree.restores_text htype)

theorem restores_members {ms : List MemberTree} {indent : String} (hindent : Lacks brackets indent)
    (h : ∀ n ∈ ms.flatMap MemberTree.names, Lacks brackets n) :
    ∀ l ∈ ms.map (MemberTree.line indent), Restores l :=
  List.forall_mem_map.mpr fun m hm => m.restores_line hindent fun n hn =>
    h n (List.mem_flatMap.mpr ⟨m, hm, hn⟩)

theorem restores_openGenericsText {gs : List String} (h : ∀ g ∈ gs, Lacks brackets g) :
    Restores (openGenericsText gs) := by
  cases gs with
  | nil => exact .of_lacks (by decide)
  | cons g gs => exact .angles (.intercalate (by decide) fun g hg => .of_lacks (h g hg))

theorem restores_heritage {ts : List TypeTree}
    (h : ∀ n ∈ TypeTree.namesOf ts, Lacks brackets n) : Restores (heritage ts) := by
  cases ts with
  | nil => exact .of_lacks (by decide)
  | cons t ts =>
    refine (Restores.of_lacks (by decide)).append
      (.intercalate (by decide) (List.forall_mem_map.mpr ?_))
    exact fun t ht => t.restores_text fun n hn => h n (TypeTree.mem_namesOf.mpr ⟨t, ht, hn⟩)

theorem restores_stability (o : Option Stability) :
    ∀ l ∈ o.elim [] Stability.lines, Restores l := by
  cases o with
  | none => exact nofun
  | some s =>
    have : ∀ l ∈ s.lines, Lacks brackets l := by cases s <;> decide
    exact fun l hl => .of_lacks (this l hl)

/-! ## Declarations -/

/-- A body opens what it closes. -/
theorem BodyTree.linesTurn {b : BodyTree} (h : ∀ n ∈ b.names, Lacks brackets n) :
    LinesTurn [] b.lines [] := by
  cases b with
  | members ms =>
    have hopens : Turns [] "    body?: \x7b" ['\x7b'] := fun _ => rfl
    have hcloses : Turns ['\x7b'] "    \x7d" [] := fun _ => rfl
    exact .block hopens (restores_members (by decide) h) hcloses
  | type t =>
    exact .of_forall (List.forall_mem_singleton.mpr
      ((Restores.of_lacks (by decide)).append (t.restores_text h)))

/-- A line that ends in an opening brace. -/
theorem turns_header {s : String} (h : Restores s) : Turns [] (s ++ " \x7b") ['\x7b'] :=
  h.turns.append fun _ => rfl

/-- An interface is balanced, its comment and its header with it. -/
theorem InterfaceTree.linesTurn {i : InterfaceTree} (h : ∀ n ∈ i.names, Lacks brackets n) :
    LinesTurn [] i.lines [] := by
  simp only [names, List.forall_mem_append, List.forall_mem_cons] at h
  obtain ⟨⟨⟨hname, hgenerics, hancestors⟩, hmembers⟩, hbody⟩ := h
  have hheader : Turns [] i.header ['\x7b'] :=
    turns_header ((((Restores.of_lacks (by decide)).append (.of_lacks hname)).append
      (restores_openGenericsText hgenerics)).append (restores_heritage hancestors))
  have hbodyLines : LinesTurn [] (i.body.elim [] BodyTree.lines) [] := by
    cases hb : i.body with
    | none => exact .of_forall fun l hl => absurd hl List.not_mem_nil
    | some b => exact b.linesTurn fun n hn => hbody n (by rwa [hb])
  exact (((LinesTurn.of_forall (restores_stability _)).append (.singleton hheader)).append
    ((LinesTurn.of_forall (restores_members (by decide) hmembers)).append hbodyLines.inside)).append
      (.singleton fun _ => rfl)

/-- **A declaration is balanced**, one case for each form. -/
theorem DeclarationTree.restores_text {t : DeclarationTree}
    (hnames : ∀ n ∈ t.names, Lacks brackets n)
    (hrepresentations : ∀ r ∈ t.representations, Lacks brackets r) : Restores t.text := by
  refine LinesTurn.restores ?_
  cases t with
  | typeAlias name type =>
    obtain ⟨hname, htype⟩ := List.forall_mem_cons.mp hnames
    exact .of_forall (List.forall_mem_singleton.mpr ((((Restores.of_lacks (by decide)).append
      (.of_lacks hname)).append (.of_lacks (by decide))).append (type.restores_text htype)))
  | literals name representations =>
    refine .of_forall (List.forall_mem_singleton.mpr ((((Restores.of_lacks (by decide)).append
      (.of_lacks (hnames name List.mem_cons_self))).append (.of_lacks (by decide))).append
      (.intercalate (by decide) ?_)))
    exact List.forall_mem_map.mpr fun r hr => restores_literal (hrepresentations r hr)
  | enumeration name members =>
    obtain ⟨hname, hmembers⟩ := List.forall_mem_cons.mp hnames
    refine .block (turns_header ((Restores.of_lacks (by decide)).append (.of_lacks hname)))
      (List.forall_mem_map.mpr fun m hm => m.restores_line ?_ ?_) fun _ => rfl
    · exact hmembers m.name (List.mem_map_of_mem hm)
    · exact hrepresentations m.representation (List.mem_map_of_mem hm)
  | interface tree => exact tree.linesTurn hnames

/-! ## The generated code -/

variable {p : Profile} {c : Catalog}

theorem lacks_brackets_languageNames : ∀ n ∈ languageNames, Lacks brackets n := by decide

theorem Resolves.restores_text {d : Definition} {t : DeclarationTree} (h : Resolves p d t)
    (hnames : ∀ n ∈ d.names, Lacks brackets n)
    (hrepresentations : ∀ r ∈ d.representations, Lacks brackets r) : Restores t.text :=
  t.restores_text
    (fun n hn => (List.mem_append.mp (d.names_tree h hn)).elim (hnames n)
      (lacks_brackets_languageNames n))
    fun r hr => hrepresentations r (d.representations_tree h hr)

/-- Code is one block and an export: a brace is open from the end of the first line up to the line
that closes the block, and none behind it. -/
def IsNamespaceBlock (name code : String) : Prop :=
  ∃ first inside last, first = "declare namespace " ++ name ++ " \x7b" ∧
    last = "\n\nexport default " ++ name ∧ code = first ++ inside ++ "\n\x7d" ++ last ∧
    (∀ front, front <+: (inside ++ "\n").toList → 1 ≤ braceDepth (first.toList ++ front)) ∧
    ∀ front, front <+: last.toList →
      braceDepth ((first ++ inside ++ "\n\x7d").toList ++ front) = 0

/-- Declarations that close what they open are one block inside a namespace. -/
theorem namespaceText_block {name : String} (hname : Lacks brackets name)
    {declarations : List String} (h : ∀ t ∈ declarations, Restores t) :
    Balanced (namespaceText name declarations) ∧
      IsNamespaceBlock name (namespaceText name declarations) := by
  let first := "declare namespace " ++ name ++ " \x7b"
  let inside := "\n" ++ "\n\n".intercalate declarations
  let last := "\n\nexport default " ++ name
  have hfirst : Turns [] first ['\x7b'] :=
    turns_header ((Restores.of_lacks (by decide)).append (.of_lacks hname))
  have hinside : Restores inside :=
    (Restores.of_lacks (by decide)).append (.intercalate (by decide) h)
  have hlast : Lacks brackets last := Lacks.append (by decide) hname
  have hblock : Restores (first ++ inside ++ "\n\x7d") :=
    (hfirst.append hinside.turns).append fun _ => rfl
  have htext : namespaceText name declarations = first ++ inside ++ "\n\x7d" ++ last := by
    rw [namespaceText_eq]
    refine String.toList_injective ?_
    simp [first, inside, last]
  rw [htext]
  refine ⟨(hblock.append (.of_lacks hlast)).balanced, first, inside, last, rfl, rfl, rfl,
    fun front hfront => ?_, fun front hfront => ?_⟩
  · have : 0 ≤ braceDepth front :=
      (hinside.append (.of_lacks (by decide))).balanced.braceDepth_nonneg hfront
    have : braceDepth first.toList = 1 := hfirst.braceDepth_eq
    rw [braceDepth_append]
    omega
  · rw [braceDepth_append, hblock.braceDepth_eq, braceDepth_eq_zero hlast hfront]
    rfl

/-- **No declaration breaks out of the namespace**: each of them is balanced, and so is the code,
in which the block of the namespace ends in front of the export. -/
theorem generate_balanced (hnames : ∀ d ∈ c, ∀ n ∈ d.names, Lacks brackets n)
    (hrepresentations : ∀ d ∈ c, ∀ r ∈ d.representations, Lacks brackets r)
    (hnamespace : Lacks brackets p.namespaceName)
    {j j' : Journal} {out : Output} (h : (generate p c).run.run j = (.ok out, j')) :
    Balanced out.code ∧ IsNamespaceBlock p.namespaceName out.code ∧
      ∃ declarations, out.code = namespaceText p.namespaceName declarations ∧
        List.Forall₂ (Declares p) (emittedEntries p c) declarations ∧
        ∀ t ∈ declarations, Balanced t := by
  obtain ⟨trees, htrees, hcode, -⟩ := exists_trees_of_generate h
  have hmem : ∀ d ∈ emittedEntries p c, d ∈ c := fun d hd => (List.mem_filter.mp hd).1
  have hrestores : ∀ t ∈ trees.map DeclarationTree.text, Restores t :=
    List.forall_mem_map.mpr (Related.forall_mem_of_forall₂ (fun d hd t ht =>
      ht.restores_text (hnames d (hmem d hd)) (hrepresentations d (hmem d hd))) htrees)
  obtain ⟨hbalanced, hblock⟩ := namespaceText_block hnamespace hrestores
  rw [hcode]
  exact ⟨hbalanced, hblock, _, rfl,
    List.forall₂_map_right_iff.mpr (htrees.imp fun _ _ h => h.declares),
    fun t ht => (hrestores t ht).balanced⟩

/-- A catalog of an empty enumeration, an empty union, a type without its generic parameters, and a
request with a body. -/
def hollowCatalog : Catalog :=
  [.enumeration "Order" [], .unionAlias "Nothing" (.union []),
   .interface ⟨"Page", ["TNode"], [.reference "ResponseBase" []]⟩
    [⟨"nodes", some (.array (.reference "TNode" [])), false⟩],
   .request ⟨"PageRequest", [], [.reference "RequestBase" [.reference "Page" []]]⟩ none none
    (some (.properties
      [⟨"orders", some (.dictionary (.reference "string" []) (.reference "Order" [])), true⟩]))]

/-- Its code is balanced. -/
theorem hollowCatalog_balanced :
    ∃ out j', (generate {} hollowCatalog).run.run {} = (.ok out, j') ∧
      Balanced out.code ∧ IsNamespaceBlock "T" out.code ∧
      ∃ declarations, out.code = namespaceText "T" declarations ∧
        List.Forall₂ (Declares {}) (emittedEntries {} hollowCatalog) declarations ∧
        ∀ t ∈ declarations, Balanced t :=
  ⟨_, _, rfl, generate_balanced (p := {}) (c := hollowCatalog) (j := {}) (by decide) (by decide)
    (by decide) rfl⟩

end TypeCatalog
