import TypeCatalog.Proofs.Layout.Declarations
import TypeCatalog.Proofs.Syntax.WellFormed

/-!
# Proofs/Syntax/Generated — when the generated code is a file of the language

What is generated from a loaded catalog is a file of the language if and only if each definition
that has a declaration is well-formed (`generate_isFile_iff`): the generation writes every
expression that it can read, and asks neither whether a list is empty nor what an ancestor is.
-/

namespace TypeCatalog

open Layout Log Syntax

/-! ## Files -/

/-- The namespace around some blocks can be told from them. -/
theorem namespace_inj {name name' inner inner' : String} (hname : isIdentifier name)
    (hname' : isIdentifier name')
    (h : "declare namespace " ++ name ++ " \x7b\n" ++ inner ++
        "\n\x7d\n\nexport default " ++ name =
      "declare namespace " ++ name' ++ " \x7b\n" ++ inner' ++
        "\n\x7d\n\nexport default " ++ name') :
    inner = inner' := by
  simp only [String.append_assoc, String.append_right_inj] at h
  obtain ⟨rfl, hrest⟩ := append_inj hname hname' (.of_start rfl (by decide) _)
    (.of_start rfl (by decide) _) h
  exact (String.append_left_inj _).mp ((String.append_right_inj _).mp hrest)

/-- **Declarations make a file if and only if each is one of the language.** -/
theorem isFile_namespaceText_iff {name : String} (hname : isIdentifier name)
    {declarations : List (List String)} (hblocks : ∀ lines ∈ declarations, IsBlock lines) :
    IsFile (namespaceText name (declarations.map ("\n".intercalate ·))) ↔
      ∀ lines ∈ declarations, IsDeclaration lines := by
  rw [namespaceText_eq]
  constructor
  · generalize hcode : _ ++ name = code
    rintro ⟨hname', hdeclarations⟩
    -- Whatever declarations the code is read as, it falls into the same pieces, and these have the
    -- same lines.
    have hblocks' := fun lines hl => (hdeclarations lines hl).isBlock
    have hpieces := congrArg declarationPieces (namespace_inj hname hname' hcode)
    rw [declarationPieces_intercalate hblocks, declarationPieces_intercalate hblocks'] at hpieces
    intro lines hlines
    have hmem : "\n".intercalate lines ∈ declarations.map ("\n".intercalate ·) :=
      List.mem_map_of_mem hlines
    rw [hpieces] at hmem
    obtain ⟨lines', hlines', heq⟩ := List.mem_map.mp hmem
    rw [(hblocks lines hlines).lines_inj (hblocks' lines' hlines') heq.symm]
    exact hdeclarations lines' hlines'
  · exact .mk hname

/-! ## Generated code -/

variable {p : Profile} {c : Catalog}

/-- The names of a definition are identifiers, and its representations can be quoted. -/
structure Definition.IsLegible (d : Definition) : Prop where
  names : ∀ n ∈ d.names, isIdentifier n
  representations : ∀ r ∈ d.representations, isQuotable r

variable {d : Definition} {t : DeclarationTree}

/-- A declaration is one of the language if and only if its definition is well-formed. -/
theorem Resolves.isDeclaration_iff (h : Resolves p d t) (hd : d.IsLegible) :
    IsDeclaration t.lines ↔ d.IsWellFormed p := by
  have hnames : ∀ n ∈ t.names, isIdentifier n := by
    intro n hn
    have hlanguage : ∀ n ∈ languageNames, isIdentifier n := by decide
    exact (List.mem_append.mp (d.names_tree h hn)).elim (hd.names n) (hlanguage n)
  rw [← Definition.isFull_iff h]
  exact t.isDeclaration_iff hnames fun r hr =>
    hd.representations r (d.representations_tree h hr)

theorem Definition.IsLegible.isBlock (hd : d.IsLegible) (h : Resolves p d t) : IsBlock t.lines :=
  h.isBlock (fun n hn => oneLine_of_isIdentifier (hd.names n hn))
    fun r hr => oneLine_of_isQuotable (hd.representations r hr)

/-- **The code of a run that succeeds is a file of the language if and only if each definition that
has a declaration is well-formed.** -/
theorem isFile_code_iff (hc : ∀ d ∈ c, d.IsLegible) (hp : isIdentifier p.namespaceName)
    {j j' : Journal} {out : Output} (h : (generate p c).run.run j = (.ok out, j')) :
    IsFile out.code ↔ ∀ d ∈ emittedEntries p c, d.IsWellFormed p := by
  obtain ⟨trees, htrees, hcode, -, -⟩ := exists_trees_of_generate h
  have hlegible : ∀ d ∈ emittedEntries p c, d.IsLegible :=
    fun d hd => hc d (List.mem_filter.mp hd).1
  have hblocks : ∀ lines ∈ trees.map DeclarationTree.lines, IsBlock lines :=
    List.forall_mem_map.mpr (Related.forall_mem_of_forall₂
      (fun d hd t ht => (hlegible d hd).isBlock ht) htrees)
  rw [hcode, DeclarationTree.map_text, isFile_namespaceText_iff hp hblocks, List.forall_mem_map]
  exact (Related.forall_mem_iff (fun d hd t ht => (ht.isDeclaration_iff (hlegible d hd)).symm)
    htrees).symm

/-- **What is loaded is generated, and the code is a file of the language if and only if each
definition that has a declaration is well-formed.** -/
theorem generate_isFile_iff {entries : List (Value × Value)}
    (hload : Catalog.ofDocument entries = .ok c) (hc : ∀ d ∈ c, d.IsLegible)
    (hp : isIdentifier p.namespaceName) (j : Journal) :
    ∃ out j', (generate p c).run.run j = (.ok out, j') ∧
      (IsFile out.code ↔ ∀ d ∈ emittedEntries p c, d.IsWellFormed p) := by
  obtain ⟨out, j', hrun, -⟩ := generate_yields p (Loaded.ofDocument_eq_ok.mp hload).known j
  exact ⟨out, j', hrun, isFile_code_iff hc hp hrun⟩

/-- The document of a single definition. -/
def documentOf (definition : List (Value × Value)) : List (Value × Value) :=
  [(.string "types", .list [.object definition])]

/-- An interface with a generic parameter, an ancestor and a member. -/
def box : Definition :=
  .interface ⟨"Box", ["T"], [.reference "Shape" []]⟩
    [⟨"items", some (.array (.reference "T" [])), false⟩]

/-- …as it stands in a document. -/
def boxEntries : List (Value × Value) :=
  [(.string "kind", .string "interface"), (.string "name", .string "Box"),
   (.string "openGenerics", .list [.string "T"]), (.string "inherits", .list [.string "Shape"]),
   (.string "properties", .list [.object [(.string "name", .string "items"), (.string "type",
     .object [(.string "kind", .string "array_of"), (.string "of", .string "T")])]])]

/-- Its code is a file of the language. -/
theorem box_isFile : ∃ c out j', Catalog.ofDocument (documentOf boxEntries) = .ok c ∧
    (∀ d ∈ c, d.IsLegible) ∧ (generate {} c).run.run {} = (.ok out, j') ∧
    (∀ d ∈ emittedEntries {} c, d.IsWellFormed {}) ∧ IsFile out.code := by
  have hload : Catalog.ofDocument (documentOf boxEntries) = .ok [box] := by rfl
  have hlegible : ∀ d ∈ [box], d.IsLegible :=
    List.forall_mem_singleton.mpr ⟨by decide, by decide⟩
  have hwhole : IsWhole {} [.reference "Shape" [], .array (.reference "T" [])] :=
    isWhole_cons.mpr ⟨isWhole_singleton.mpr ⟨id, isWhole_nil⟩,
      isWhole_singleton.mpr ⟨id, isWhole_singleton.mpr ⟨id, isWhole_nil⟩⟩⟩
  have hformed : ∀ d ∈ [box], d.IsWellFormed {} := List.forall_mem_singleton.mpr
    ⟨hwhole, List.forall_mem_singleton.mpr (.reference _ _), nofun⟩
  obtain ⟨out, j', hrun, hiff⟩ := generate_isFile_iff (p := {}) hload hlegible (by decide) {}
  exact ⟨[box], out, j', hload, hlegible, hrun, hformed, hiff.mpr hformed⟩

/-- A document of a single definition is loaded, with names and representations as they should be,
and what is generated from it is no file of the language. -/
def GeneratesNoFile (p : Profile) (definition : List (Value × Value)) : Prop :=
  ∃ c out j', Catalog.ofDocument (documentOf definition) = .ok c ∧ (∀ d ∈ c, d.IsLegible) ∧
    isIdentifier p.namespaceName ∧ (generate p c).run.run {} = (.ok out, j') ∧ ¬ IsFile out.code

theorem generatesNoFile_of_load {definition : List (Value × Value)} {d : Definition}
    (hload : Catalog.ofDocument (documentOf definition) = .ok [d]) (hd : d.IsLegible)
    (hp : isIdentifier p.namespaceName) (hemitted : d.isBase p = false)
    (hformed : ¬ d.IsWellFormed p) : GeneratesNoFile p definition := by
  have hlegible : ∀ d' ∈ [d], d'.IsLegible := List.forall_mem_singleton.mpr hd
  obtain ⟨out, j', hrun, -⟩ := generate_yields p (Loaded.ofDocument_eq_ok.mp hload).known {}
  refine ⟨[d], out, j', hload, hlegible, hp, hrun, fun hfile => hformed ?_⟩
  exact (isFile_code_iff hlegible hp hrun).mp hfile d (by simp [emittedEntries, hemitted])

/-- An alias of a union without items, an enumeration without members where it becomes a union, a
dictionary base without generics as an ancestor, and an array as an ancestor: each is loaded, and
the code is no file of the language.  Where an enumeration becomes a union of texts, these are
literals and no names. -/
theorem malformed_generatesNoFile :
    GeneratesNoFile {} [(.string "kind", .string "union_alias"),
      (.string "name", .string "Nothing"), (.string "wraps", .object
        [(.string "kind", .string "union_of"), (.string "items", .list [])])] ∧
    GeneratesNoFile { enumAsUnion := true } [(.string "kind", .string "enum"),
      (.string "name", .string "Order"), (.string "members", .list [])] ∧
    GeneratesNoFile {} [(.string "kind", .string "interface"), (.string "name", .string "Labels"),
      (.string "inherits", .list [.object [(.string "kind", .string "implements"),
        (.string "type", .string "DictionaryResponseBase")]])] ∧
    GeneratesNoFile {} [(.string "kind", .string "interface"), (.string "name", .string "Boxes"),
      (.string "inherits", .list [.object [(.string "kind", .string "array_of"),
        (.string "of", .string "Box")]])] ∧
    Declares { enumAsUnion := true } (.enumeration "Order" [⟨"asc", "asc"⟩])
      "  export type Order = \"asc\"" ∧ ¬ IsType "\"asc\"" := by
  refine ⟨?_, ?_, ?_, ?_, ?_, ?_⟩
  · refine generatesNoFile_of_load (d := .unionAlias "Nothing" (.union [])) rfl
      ⟨by decide, by decide⟩ (by decide) (by decide) fun h => ?_
    exact (isWhole_singleton.mp h.whole).1 rfl
  · refine generatesNoFile_of_load (d := .enumeration "Order" []) rfl
      ⟨by decide, by decide⟩ (by decide) (by decide) fun h => ?_
    exact h.members rfl "Order" rfl
  · refine generatesNoFile_of_load
      (d := .interface ⟨"Labels", [], [.implementation "DictionaryResponseBase" []]⟩ []) rfl
      ⟨by decide, by decide⟩ (by decide) (by decide) fun h => ?_
    exact (isWhole_singleton.mp h.whole).1 ⟨rfl, rfl⟩
  · refine generatesNoFile_of_load
      (d := .interface ⟨"Boxes", [], [.array (.reference "Box" [])]⟩ []) rfl
      ⟨by decide, by decide⟩ (by decide) (by decide) fun h => ?_
    cases h.ancestors _ (List.mem_singleton_self _)
  · exact Resolves.declares (t := .literals "Order" ["asc"]) rfl
  · intro h
    exact absurd (h.1 "\"asc\"" (by decide)) (by decide)

end TypeCatalog
