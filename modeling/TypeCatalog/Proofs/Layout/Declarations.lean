import TypeCatalog.Proofs.Generation.Declarations
import TypeCatalog.Proofs.Generation.Names
import TypeCatalog.Proofs.Layout.Pieces

/-!
# Proofs/Layout/Declarations — the generated code falls into its declarations

No line of a declaration is empty, and none is more than one line, unless a name or a representation
holds a line feed.  So every declaration is a block, and the generated code is cut at its blank
lines into the declarations that it was put together from (`generate_pieces`).
-/

namespace TypeCatalog

open Layout Log

/-! ## Lines -/

/-- A type is on one line if its names are. -/
theorem TypeTree.oneLine_text {t : TypeTree} (h : ∀ n ∈ t.names, OneLine n) : OneLine t.text :=
  text_closed .append
    (fun _ htexts => (OneLine.append (by decide) (.intercalate (by decide) htexts)).append
      (by decide))
    (by decide) (fun _ htexts => .intercalate (by decide) htexts) h

/-- A key is on one line if its name is. -/
theorem oneLine_memberKey {name : String} (h : OneLine name) : OneLine (memberKey name) := by
  rw [memberKey]
  split
  · exact (OneLine.append (by decide) h).append (by decide)
  · exact h

/-- A member is a line. -/
theorem MemberTree.isLine {m : MemberTree} {indent : String} (hindent : IsLine indent)
    (h : ∀ n ∈ m.names, OneLine n) : IsLine (m.line indent) := by
  obtain ⟨hname, htype⟩ := List.forall_mem_cons.mp h
  have hmark : OneLine (if m.optional then "?" else "") := by split <;> decide
  exact (((hindent.append (oneLine_memberKey hname)).append hmark).append (by decide)).append
    (TypeTree.oneLine_text htype)

theorem isLine_members {ms : List MemberTree} {indent : String} (hindent : IsLine indent)
    (h : ∀ n ∈ ms.flatMap MemberTree.names, OneLine n) :
    ∀ l ∈ ms.map (MemberTree.line indent), IsLine l :=
  List.forall_mem_map.mpr fun m hm => m.isLine hindent fun n hn =>
    h n (List.mem_flatMap.mpr ⟨m, hm, hn⟩)

/-- A body is made of lines. -/
theorem BodyTree.isLine {b : BodyTree} (h : ∀ n ∈ b.names, OneLine n) :
    ∀ l ∈ b.lines, IsLine l := by
  cases b with
  | members ms =>
    rw [lines, List.forall_mem_append, List.forall_mem_append]
    exact ⟨⟨by decide, isLine_members (by decide) h⟩, by decide⟩
  | type t => exact List.forall_mem_singleton.mpr (IsLine.append (by decide) (t.oneLine_text h))

theorem oneLine_openGenericsText {gs : List String} (h : ∀ g ∈ gs, OneLine g) :
    OneLine (openGenericsText gs) := by
  cases gs with
  | nil => decide
  | cons g gs => exact (OneLine.append (by decide) (.intercalate (by decide) h)).append (by decide)

/-- Ancestors are on one line. -/
theorem oneLine_heritage {ts : List TypeTree} (h : ∀ n ∈ TypeTree.namesOf ts, OneLine n) :
    OneLine (heritage ts) := by
  cases ts with
  | nil => decide
  | cons t ts =>
    refine OneLine.append (by decide) (.intercalate (by decide) (List.forall_mem_map.mpr ?_))
    exact fun t ht => t.oneLine_text fun n hn => h n (TypeTree.mem_namesOf.mpr ⟨t, ht, hn⟩)

theorem oneLine_literal {representation : String} (h : OneLine representation) :
    OneLine (literal representation) := by
  rw [literal]
  split
  · exact h
  · exact (OneLine.append (by decide) h).append (by decide)

theorem Member.isLine {m : Member} (hname : OneLine m.name)
    (hrepresentation : OneLine m.representation) : IsLine m.line :=
  ((((show IsLine "    " by decide).append (oneLine_memberKey hname)).append (by decide)).append
    hrepresentation).append (by decide)

theorem isLine_stability (o : Option Stability) : ∀ l ∈ o.elim [] Stability.lines, IsLine l := by
  cases o with
  | none => exact nofun
  | some s => cases s <;> decide

/-- An interface is made of lines, from its comment to its brace. -/
theorem InterfaceTree.isLine {i : InterfaceTree} (h : ∀ n ∈ i.names, OneLine n) :
    ∀ l ∈ i.lines, IsLine l := by
  simp only [names, List.forall_mem_append, List.forall_mem_cons] at h
  obtain ⟨⟨⟨hname, hgenerics, hancestors⟩, hmembers⟩, hbody⟩ := h
  have hheader : IsLine i.header :=
    ((((show IsLine "  export interface " by decide).append hname).append
      (oneLine_openGenericsText hgenerics)).append (oneLine_heritage hancestors)).append (by decide)
  have hbodyLines : ∀ l ∈ i.body.elim [] BodyTree.lines, IsLine l := by
    cases hb : i.body with
    | none => exact fun l hl => absurd hl List.not_mem_nil
    | some b => exact b.isLine fun n hn => hbody n (by rwa [hb])
  simp only [lines, List.forall_mem_append, List.forall_mem_singleton]
  exact ⟨⟨⟨isLine_stability _, hheader⟩, isLine_members (by decide) hmembers, hbodyLines⟩,
    by decide⟩

/-- **A declaration is a block, if each of its names and representations stands on one line.** -/
theorem DeclarationTree.isBlock {t : DeclarationTree} (hnames : ∀ n ∈ t.names, OneLine n)
    (hrepresentations : ∀ r ∈ t.representations, OneLine r) : IsBlock t.lines := by
  cases t with
  | typeAlias name type =>
    obtain ⟨hname, htype⟩ := List.forall_mem_cons.mp hnames
    refine ⟨List.cons_ne_nil _ _, List.forall_mem_singleton.mpr ?_⟩
    exact (((show IsLine "  export type " by decide).append hname).append (by decide)).append
      (type.oneLine_text htype)
  | literals name representations =>
    refine ⟨List.cons_ne_nil _ _, List.forall_mem_singleton.mpr ?_⟩
    refine (((show IsLine "  export type " by decide).append
      (hnames name List.mem_cons_self)).append (by decide)).append (.intercalate (by decide) ?_)
    exact List.forall_mem_map.mpr fun r hr => oneLine_literal (hrepresentations r hr)
  | enumeration name members =>
    obtain ⟨hname, hmembers⟩ := List.forall_mem_cons.mp hnames
    refine ⟨List.cons_ne_nil _ _, ?_⟩
    simp only [lines, List.forall_mem_append, List.forall_mem_singleton]
    refine ⟨⟨((show IsLine "  export enum " by decide).append hname).append (by decide),
      List.forall_mem_map.mpr fun m hm => m.isLine ?_ ?_⟩, by decide⟩
    · exact hmembers m.name (List.mem_map_of_mem hm)
    · exact hrepresentations m.representation (List.mem_map_of_mem hm)
  | interface tree => exact ⟨by simp [lines, InterfaceTree.lines], tree.isLine hnames⟩

/-! ## The generated code -/

variable {p : Profile} {c : Catalog}

/-- The text of a namespace around its declarations. -/
theorem namespaceText_eq (name : String) (declarations : List String) :
    namespaceText name declarations = "declare namespace " ++ name ++ " \x7b\n" ++
      "\n\n".intercalate declarations ++ "\n\x7d\n\nexport default " ++ name := by
  refine String.toList_injective ?_
  simp [namespaceText]

/-- A declaration of a definition whose names and representations stand on one line is a block. -/
theorem Resolves.isBlock {d : Definition} {t : DeclarationTree} (h : Resolves p d t)
    (hnames : ∀ n ∈ d.names, OneLine n) (hrepresentations : ∀ r ∈ d.representations, OneLine r) :
    IsBlock t.lines := by
  refine t.isBlock (fun n hn => ?_) fun r hr => hrepresentations r (d.representations_tree h hr)
  refine (List.mem_append.mp (d.names_tree h hn)).elim (hnames n) ?_
  have : ∀ n ∈ languageNames, OneLine n := by decide
  exact this n

/-- **The generated code falls into the declarations of the entries that have one.** -/
theorem generate_pieces (hnames : ∀ d ∈ c, ∀ n ∈ d.names, OneLine n)
    (hrepresentations : ∀ d ∈ c, ∀ r ∈ d.representations, OneLine r)
    {j j' : Journal} {out : Output} (h : (generate p c).run.run j = (.ok out, j')) :
    ∃ inner, out.code = "declare namespace " ++ p.namespaceName ++ " \x7b\n" ++ inner ++
        "\n\x7d\n\nexport default " ++ p.namespaceName ∧
      (declarationPieces inner).length = out.emitted ∧
      List.Forall₂ (Declares p) (emittedEntries p c) (declarationPieces inner) ∧
      (∀ piece ∈ declarationPieces inner, piece ≠ "" ∧ ¬ "\n\n".toList <:+: piece.toList) ∧
      (∀ d ∈ emittedEntries p c, ∀ name ∈ p.skipNames, d.name? ≠ some name) ∧
      out.emitted + out.skipped = c.length := by
  obtain ⟨trees, htrees, hcode, hemitted, htotal⟩ := exists_trees_of_generate h
  have hmem : ∀ d ∈ emittedEntries p c, d ∈ c := fun d hd => (List.mem_filter.mp hd).1
  have hblocks : ∀ t ∈ trees, IsBlock t.lines := Related.forall_mem_of_forall₂
    (fun d hd t ht => ht.isBlock (hnames d (hmem d hd)) (hrepresentations d (hmem d hd))) htrees
  refine ⟨"\n\n".intercalate (trees.map DeclarationTree.text), hcode.trans (namespaceText_eq _ _),
    ?_⟩
  have hpieces : declarationPieces ("\n\n".intercalate (trees.map DeclarationTree.text)) =
      trees.map DeclarationTree.text := by
    rw [DeclarationTree.map_text]
    exact declarationPieces_intercalate (List.forall_mem_map.mpr hblocks)
  rw [hpieces]
  refine ⟨(List.length_map _).trans hemitted.symm,
    List.forall₂_map_right_iff.mpr (htrees.imp fun _ _ h => h.declares),
    List.forall_mem_map.mpr fun t ht => ⟨(hblocks t ht).ne_empty_text, (hblocks t ht).not_blank⟩,
    fun d hd name hskip hname => ?_, htotal⟩
  have hbase := (List.mem_filter.mp hd).2
  rw [isBase_eq hname, decide_eq_true hskip] at hbase
  cases hbase

/-- A catalog of an empty enumeration, a base type and a request. -/
def searchCatalog : Catalog :=
  [.enumeration "Order" [], .interface ⟨"ResponseBase", [], []⟩ [],
   .request ⟨"SearchRequest", [], []⟩ none none
     (some (.properties [⟨"order", some (.reference "Order" []), true⟩]))]

/-- Its code falls into two declarations. -/
theorem searchCatalog_pieces :
    ∃ inner j' out, (generate {} searchCatalog).run.run {} = (.ok out, j') ∧
      out.code = "declare namespace " ++ "T" ++ " \x7b\n" ++ inner ++
        "\n\x7d\n\nexport default " ++ "T" ∧
      (declarationPieces inner).length = out.emitted ∧
      List.Forall₂ (Declares {}) (emittedEntries {} searchCatalog) (declarationPieces inner) ∧
      (∀ piece ∈ declarationPieces inner, piece ≠ "" ∧ ¬ "\n\n".toList <:+: piece.toList) ∧
      (∀ d ∈ emittedEntries {} searchCatalog, ∀ name ∈ Profile.skipNames {}, d.name? ≠ some name) ∧
      out.emitted + out.skipped = searchCatalog.length := by
  obtain ⟨inner, hinner⟩ := generate_pieces (p := {}) (c := searchCatalog) (j := {}) (by decide)
    (by decide) rfl
  exact ⟨inner, _, _, rfl, hinner⟩

end TypeCatalog
