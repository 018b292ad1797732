import TypeCatalog.Proofs.Generation.EnumMode
import TypeCatalog.Proofs.Layout.Declarations

/-!
# Proofs/Layout/EnumerationForms — the union of an enumeration, made of its block

`literalUnion` rewrites the text of a block to a union of literals: it takes the name off the first
line and a representation off each line of a member, and looks at nothing but the text.  Of an
enumeration with one-line names and representations, and no quotes in the names of its members, the
block is rewritten to what is written in union mode (`declares_literalUnion`).

Keys may be bare or quoted, and representations may hold quotes: a key between quotes ends with the
second quote of its line, and a representation with the last one.
-/

namespace TypeCatalog

open Layout

/-! ## Rewriting a block -/

/-- What stands behind the first quote of a text. -/
def afterQuote (text : List Char) : List Char := (text.dropWhile (· != '"')).tail

/-- What stands behind the key of a line, if that is between quotes. -/
def afterQuotedKey (line : List Char) : List Char :=
  if line.head? = some '"' then afterQuote line.tail else line

/-- What the line of a member sets its key to. -/
def lineRepresentation (line : String) : String :=
  String.ofList ((afterQuote (afterQuotedKey (line.toList.drop 4))).rdrop 2)

/-- The name in the first line of a block. -/
def blockName (line : String) : String :=
  String.ofList ((line.toList.drop "  export enum ".length).rdrop 2)

/-- The representations in the lines of a block: its first and its last line hold none. -/
def lineRepresentations (lines : List String) : List String :=
  lines.tail.dropLast.map lineRepresentation

/-- **The union of literals that a block is rewritten to.** -/
def literalUnion (block : String) : String :=
  let lines := linesOf block
  (DeclarationTree.literals (blockName (lines.headD "")) (lineRepresentations lines)).text

/-! ## What is read off the lines -/

theorem afterQuote_append {text : List Char} (h : '"' ∉ text) (rest : List Char) :
    afterQuote (text ++ '"' :: rest) = rest := by
  have hpos : ∀ c ∈ text, (c != '"') = true := fun c hc =>
    bne_iff_ne.mpr fun heq => h (heq ▸ hc)
  rw [afterQuote, List.dropWhile_append_of_pos hpos]
  rfl

/-- Behind a key and its equals sign, what stands behind the next quote is found. -/
theorem afterQuote_afterQuotedKey {name : String} (h : '"' ∉ name.toList) (rest : List Char) :
    afterQuote (afterQuotedKey ((memberKey name).toList ++ (" = ".toList ++ '"' :: rest))) =
      rest := by
  have hsign : '"' ∉ " = ".toList := by decide
  rw [memberKey]
  split
  · -- The key is between quotes: its second quote ends it.
    rw [String.toList_append, String.toList_append, List.append_assoc, List.append_assoc]
    change afterQuote (afterQuotedKey ('"' :: (name.toList ++ '"' :: (" = ".toList ++ _)))) = _
    rw [afterQuotedKey, if_pos (List.head?_cons ..), List.tail_cons, afterQuote_append h,
      afterQuote_append hsign]
  · -- The key is bare: the first quote of the line is that of the representation.
    have hkey : '"' ∉ name.toList ++ " = ".toList := by
      rw [List.mem_append]
      exact fun hmem => hmem.elim h hsign
    have hhead : (name.toList ++ (" = ".toList ++ '"' :: rest)).head? ≠ some '"' := by
      cases hname : name.toList with
      | nil => simp
      | cons c cs =>
        rw [hname] at h
        simpa using (List.ne_of_not_mem_cons h).symm
    rw [afterQuotedKey, if_neg hhead, ← List.append_assoc, afterQuote_append hkey]

theorem lineRepresentation_line {m : Member} (h : '"' ∉ m.name.toList) :
    lineRepresentation m.line = m.representation := by
  have hline : m.line.toList.drop 4 = (memberKey m.name).toList ++
      (" = ".toList ++ '"' :: (m.representation.toList ++ "\",".toList)) := by
    simp [Member.line]
  rw [lineRepresentation, hline, afterQuote_afterQuotedKey h]
  exact (congrArg String.ofList (rdrop_append _ "\",".toList)).trans String.ofList_toList

theorem blockName_start (name : String) :
    blockName ("  export enum " ++ name ++ " \x7b") = name := by
  have hstart : ("  export enum " ++ name ++ " \x7b").toList =
      "  export enum ".toList ++ (name.toList ++ " \x7b".toList) := by
    rw [String.toList_append, String.toList_append, List.append_assoc]
  rw [blockName, hstart, ← String.length_toList, List.drop_left]
  exact (congrArg String.ofList (rdrop_append _ " \x7b".toList)).trans String.ofList_toList

/-! ## Both forms of an enumeration -/

/-- A block is rewritten to the union of its members' literals. -/
theorem literalUnion_block {name : String} {members : List Member}
    (hblock : IsBlock (DeclarationTree.enumeration name members).lines)
    (hnames : ∀ m ∈ members, '"' ∉ m.name.toList) :
    literalUnion (DeclarationTree.enumeration name members).text =
      (DeclarationTree.literals name (members.map (·.representation))).text := by
  have hrepresentations : (members.map Member.line).map lineRepresentation =
      members.map (·.representation) := by
    rw [List.map_map]
    exact List.map_congr_left fun m hm => lineRepresentation_line (hnames m hm)
  have hlines : linesOf (DeclarationTree.enumeration name members).text =
      ("  export enum " ++ name ++ " \x7b") :: (members.map Member.line ++ ["  \x7d"]) :=
    hblock.linesOf_intercalate
  rw [literalUnion, hlines, List.headD_cons, blockName_start, lineRepresentations, List.tail_cons,
    List.dropLast_concat, hrepresentations]

/-- **The union of an enumeration is made of the text of its block.** -/
theorem declares_literalUnion (p : Profile) {name : String} {members : List Member}
    (hname : OneLine name) (hnames : ∀ m ∈ members, OneLine m.name ∧ '"' ∉ m.name.toList)
    (hmembers : ∀ m ∈ members, OneLine m.representation) :
    ∃ block, Declares (p.inMode false) (.enumeration name members) block ∧
      Declares (p.inMode true) (.enumeration name members) (literalUnion block) := by
  have hblock : IsBlock (DeclarationTree.enumeration name members).lines := by
    refine DeclarationTree.isBlock ?_ (List.forall_mem_map.mpr hmembers)
    exact List.forall_mem_cons.mpr ⟨hname, List.forall_mem_map.mpr fun m hm => (hnames m hm).1⟩
  refine ⟨(DeclarationTree.enumeration name members).text, Resolves.declares rfl, ?_⟩
  rw [literalUnion_block hblock fun m hm => (hnames m hm).2]
  exact Resolves.declares rfl

/-- An enumeration with a bare, a quoted and an empty key, and quotes in a representation. -/
theorem order_literalUnion :
    ∃ block, Declares (Profile.inMode {} false) (.enumeration "Order"
        [⟨"asc", "asc"⟩, ⟨"a-b", "say \"x\", y"⟩, ⟨"", "true"⟩]) block ∧
      Declares (Profile.inMode {} true) (.enumeration "Order"
        [⟨"asc", "asc"⟩, ⟨"a-b", "say \"x\", y"⟩, ⟨"", "true"⟩]) (literalUnion block) :=
  declares_literalUnion {} (by decide) (by decide) (by decide)

end TypeCatalog
