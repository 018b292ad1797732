import TypeCatalog.Proofs.Layout.InterfaceLines

/-!
# Proofs/Layout/HeaderLine — the ancestors in the header of an interface

`HeaderReading.ofLine` takes the header of an interface apart: its name, its generic parameters, and
the texts of its ancestors, which are cut at the commas outside of angle brackets.  The commas of a
type stand inside of its angle brackets, at any depth, so a type is never cut
(`TypeTree.uncut_text`), and the texts that are read are those of the ancestors, one for each.  No
ancestors are read off the header of an interface that has none, or the response base only
(`interface_header`).
-/

namespace TypeCatalog

namespace Layout

/-! ## Cutting at commas -/

/-- How many angle brackets are open behind a character. -/
def anglesAfter (depth : Nat) (c : Char) : Nat :=
  if c = '<' then depth + 1 else if c = '>' then depth - 1 else depth

/-- The characters of a text, cut at each comma with a space that stands in no angle brackets;
`depth` of them are open in front of it. -/
def cutOutside : Nat → List Char → List (List Char)
  | _, [] => [[]]
  | 0, ',' :: ' ' :: rest => [] :: cutOutside 0 rest
  | depth, c :: rest => (cutOutside (anglesAfter depth c) rest).modifyHead (c :: ·)

/-- A text, cut at each comma with a space that stands in no angle brackets. -/
def piecesOutside (text : String) : List String := (cutOutside 0 text.toList).map String.ofList

theorem cutOutside_cons {depth : Nat} {c : Char} (h : depth = 0 → c ≠ ',') (text : List Char) :
    cutOutside depth (c :: text) =
      (cutOutside (anglesAfter depth c) text).modifyHead (c :: ·) := by
  rw [cutOutside]
  rintro rest rfl rfl
  exact absurd rfl (h rfl)

/-- A text is not cut where at least so many angle brackets are open, and leaves them open. -/
def UncutFrom (least : Nat) (text : String) : Prop :=
  ∀ depth, least ≤ depth → ∀ rest,
    cutOutside depth (text.toList ++ rest) = (cutOutside depth rest).modifyHead (text.toList ++ ·)

variable {least : Nat} {s t : String}

theorem UncutFrom.mono {more : Nat} (h : UncutFrom least s) (hle : least ≤ more) :
    UncutFrom more s := fun depth hdepth => h depth (hle.trans hdepth)

theorem uncutFrom_empty : UncutFrom least "" := fun _ _ _ =>
  (congrFun List.modifyHead_id _).symm

theorem UncutFrom.append (hs : UncutFrom least s) (ht : UncutFrom least t) :
    UncutFrom least (s ++ t) := by
  intro depth hdepth rest
  rw [String.toList_append, List.append_assoc, hs depth hdepth, ht depth hdepth,
    List.modifyHead_modifyHead]
  simp [Function.comp_def]

theorem uncutFrom_plain (h : Lacks ['<', '>', ','] s) : UncutFrom 0 s := by
  have hplain : ∀ c ∈ s.toList, c ≠ '<' ∧ c ≠ '>' ∧ c ≠ ',' := fun c hc =>
    ⟨h.ne hc '<' (by decide), h.ne hc '>' (by decide), h.ne hc ',' (by decide)⟩
  intro depth _ rest
  generalize s.toList = cs at hplain ⊢
  induction cs with
  | nil => exact (congrFun List.modifyHead_id _).symm
  | cons c cs ih =>
    obtain ⟨⟨hless, hgreater, hcomma⟩, hcs⟩ := List.forall_mem_cons.mp hplain
    rw [List.cons_append, cutOutside_cons fun _ => hcomma, anglesAfter, if_neg hless,
      if_neg hgreater, ih hcs, List.modifyHead_modifyHead]
    rfl

/-- Inside of angle brackets a comma cuts nothing. -/
theorem uncutFrom_comma : UncutFrom 1 ", " := by
  intro depth hdepth rest
  have hne : depth ≠ 0 := Nat.one_le_iff_ne_zero.mp hdepth
  change cutOutside depth (',' :: ' ' :: rest) = _
  rw [cutOutside_cons fun h => absurd h hne, cutOutside_cons fun _ => by decide,
    List.modifyHead_modifyHead]
  rfl

/-- What is not cut inside of angle brackets is not cut anywhere with these around it. -/
theorem UncutFrom.angles (h : UncutFrom 1 s) : UncutFrom 0 ("<" ++ s ++ ">") := by
  intro depth _ rest
  have htext : ("<" ++ s ++ ">").toList ++ rest = '<' :: (s.toList ++ '>' :: rest) := by simp
  rw [htext, cutOutside_cons fun _ => by decide]
  change (cutOutside (depth + 1) _).modifyHead _ = _
  rw [h _ (Nat.le_add_left 1 depth), cutOutside_cons fun _ => by decide]
  change (((cutOutside depth rest).modifyHead _).modifyHead _).modifyHead _ = _
  simp [List.modifyHead_modifyHead, Function.comp_def]

/-- **Texts that are not cut are the pieces of the text that has commas between them.** -/
theorem piecesOutside_intercalate {texts : List String} (hne : texts ≠ [])
    (h : ∀ t ∈ texts, UncutFrom 0 t) : piecesOutside (", ".intercalate texts) = texts := by
  have hcut : cutOutside 0 (", ".intercalate texts).toList = texts.map String.toList := by
    induction texts with
    | nil => exact absurd rfl hne
    | cons text texts ih =>
      obtain ⟨htext, htexts⟩ := List.forall_mem_cons.mp h
      cases texts with
      | nil =>
        have := htext 0 le_rfl []
        rwa [List.append_nil, cutOutside, List.modifyHead_cons, List.append_nil] at this
      | cons second texts =>
        rw [String.intercalate_cons_cons, String.toList_append, String.toList_append,
          List.append_assoc, htext 0 le_rfl, List.map_cons,
          ← ih (List.cons_ne_nil _ _) htexts]
        change List.modifyHead _ ([] :: cutOutside 0 _) = _
        rw [List.modifyHead_cons, List.append_nil]
        rfl
  rw [piecesOutside, hcut, List.map_map]
  exact (List.map_congr_left fun t _ => String.ofList_toList).trans (List.map_id texts)

end Layout

open Layout Failure Log Logged

/-- **A type is not cut**: each of its commas stands in angle brackets. -/
theorem TypeTree.uncut_text {t : TypeTree} (h : ∀ n ∈ t.names, UncutFrom 0 n) :
    UncutFrom 0 t.text :=
  text_closed .append
    (fun _ htexts => .angles (intercalate_closed uncutFrom_empty .append uncutFrom_comma
      fun s hs => (htexts s hs).mono (Nat.zero_le 1)))
    (uncutFrom_plain (by decide))
    (fun _ htexts => intercalate_closed uncutFrom_empty .append (uncutFrom_plain (by decide))
      htexts)
    h

/-! ## Names without marks -/

/-- The characters that mark the parts of a header, of a type and of a block, and line feeds. -/
def marks : List Char := ['<', '>', '[', ']', '\x7b', '\x7d', '|', ',', ' ', '\n']

theorem Layout.Lacks.uncut {name : String} (h : Lacks marks name) : UncutFrom 0 name :=
  uncutFrom_plain (h.mono (by decide))

theorem lacks_marks_languageNames : ∀ n ∈ languageNames, Lacks marks n := by decide

/-! ## Taking a header apart -/

/-- What a header says. -/
structure HeaderReading where
  name : String
  openGenerics : List String
  /-- The texts of the ancestors, if there is a clause of them. -/
  ancestors : Option (List String)
  deriving DecidableEq, Repr

/-- Whether a character may stand in the name. -/
def isHeaderNameChar (c : Char) : Bool := c != '<' && c != ' '

/-- Takes the generic parameters, which stand in angle brackets, off the text behind the name. -/
def takeGenerics : List Char → List String × List Char
  | '<' :: rest => (piecesOutside (String.ofList (rest.takeWhile (· != '>'))),
      (rest.dropWhile (· != '>')).tail)
  | rest => ([], rest)

/-- The ancestors in the text behind the generic parameters. -/
def takeHeritage (rest : List Char) : Option (List String) :=
  if " extends ".toList <+: rest then
    some (piecesOutside (String.ofList (rest.drop " extends ".length)))
  else none

/-- **Reads a header.** -/
def HeaderReading.ofLine (line : String) : HeaderReading :=
  let inside := (line.toList.drop "  export interface ".length).rdrop " \x7b".length
  let (openGenerics, rest) := takeGenerics (inside.dropWhile isHeaderNameChar)
  ⟨String.ofList (inside.takeWhile isHeaderNameChar), openGenerics, takeHeritage rest⟩

theorem takeWhile_append_stop {α : Type} {q : α → Bool} {front rest : List α}
    (hfront : ∀ a ∈ front, q a = true) (hrest : ∀ a ∈ rest.head?, q a = false) :
    (front ++ rest).takeWhile q = front ∧ (front ++ rest).dropWhile q = rest := by
  rw [List.takeWhile_append_of_pos hfront, List.dropWhile_append_of_pos hfront]
  cases rest with
  | nil => exact ⟨List.append_nil front, rfl⟩
  | cons a rest => simp [hrest a rfl]

theorem Layout.Lacks.isHeaderNameChar {name : String} (h : Lacks marks name) :
    ∀ c ∈ name.toList, isHeaderNameChar c = true := fun c hc => by
  simp [TypeCatalog.isHeaderNameChar, h.ne hc '<' (by decide), h.ne hc ' ' (by decide)]

/-- Generic parameters are taken off in front of anything that does not look like such. -/
theorem takeGenerics_append {gs : List String} (h : ∀ g ∈ gs, Lacks marks g) {rest : List Char}
    (hrest : rest.head? ≠ some '<') :
    takeGenerics ((openGenericsText gs).toList ++ rest) = (gs, rest) := by
  cases gs with
  | nil =>
    change takeGenerics rest = _
    rw [takeGenerics]
    rintro rest rfl
    exact absurd rfl hrest
  | cons g gs =>
    have hinside : ∀ c ∈ (", ".intercalate (g :: gs)).toList, (c != '>') = true := by
      have : '>' ∉ (", ".intercalate (g :: gs)).toList :=
        not_mem_intercalate (by decide) fun g hg => h g hg '>' (by decide)
      exact fun c hc => bne_iff_ne.mpr fun heq => this (heq ▸ hc)
    have htext : (openGenericsText (g :: gs)).toList ++ rest =
        '<' :: ((", ".intercalate (g :: gs)).toList ++ '>' :: rest) := by
      simp [openGenericsText]
    obtain ⟨htake, hdrop⟩ := takeWhile_append_stop hinside
      (show ∀ c ∈ ('>' :: rest).head?, (c != '>') = false by simp)
    rw [htext, takeGenerics, htake, hdrop, String.ofList_toList, List.tail_cons,
      piecesOutside_intercalate (List.cons_ne_nil _ _) fun g hg => (h g hg).uncut]

/-- The clause of ancestors with these texts. -/
def heritageOf (ancestors : Option (List String)) : String :=
  ancestors.elim "" (" extends " ++ ", ".intercalate ·)

theorem takeHeritage_heritageOf {ancestors : Option (List String)}
    (h : ∀ texts ∈ ancestors, texts ≠ [] ∧ ∀ s ∈ texts, UncutFrom 0 s) :
    takeHeritage (heritageOf ancestors).toList = ancestors := by
  cases ancestors with
  | none => rfl
  | some texts =>
    obtain ⟨hne, huncut⟩ := h texts rfl
    rw [heritageOf, Option.elim_some, String.toList_append, takeHeritage,
      if_pos (List.prefix_append _ _), ← String.length_toList, List.drop_left,
      String.ofList_toList, piecesOutside_intercalate hne huncut]

/-- **A header is read as it was put together.** -/
theorem HeaderReading.ofLine_header {name : String} {gs : List String}
    {ancestors : Option (List String)} (hname : Lacks marks name)
    (hgs : ∀ g ∈ gs, Lacks marks g)
    (hancestors : ∀ texts ∈ ancestors, texts ≠ [] ∧ ∀ s ∈ texts, UncutFrom 0 s) :
    ofLine ("  export interface " ++ name ++ openGenericsText gs ++ heritageOf ancestors ++
      " \x7b") = ⟨name, gs, ancestors⟩ := by
  have hline : ("  export interface " ++ name ++ openGenericsText gs ++ heritageOf ancestors ++
      " \x7b").toList = "  export interface ".toList ++ (name.toList ++
        ((openGenericsText gs).toList ++ (heritageOf ancestors).toList) ++ " \x7b".toList) := by
    simp only [String.toList_append, List.append_assoc]
  have hclause : (heritageOf ancestors).toList.head? ≠ some '<' ∧
      ∀ c ∈ (heritageOf ancestors).toList.head?, TypeCatalog.isHeaderNameChar c = false := by
    cases ancestors <;> simp [heritageOf, TypeCatalog.isHeaderNameChar]
  have hends : ∀ c ∈ ((openGenericsText gs).toList ++ (heritageOf ancestors).toList).head?,
      TypeCatalog.isHeaderNameChar c = false := by
    cases gs with
    | nil => exact hclause.2
    | cons g gs => simp [openGenericsText, TypeCatalog.isHeaderNameChar]
  obtain ⟨htake, hdrop⟩ := takeWhile_append_stop hname.isHeaderNameChar hends
  rw [ofLine, hline, ← String.length_toList, List.drop_left, ← String.length_toList, rdrop_append]
  simp only [htake, hdrop, takeGenerics_append hgs hclause.1, takeHeritage_heritageOf hancestors,
    String.ofList_toList]

/-! ## The header of a declaration -/

variable {p : Profile}

/-- The texts of the ancestors that are written, if there are any. -/
def ancestorTexts? : List TypeTree → Option (List String)
  | [] => none
  | ts => some (ts.map TypeTree.text)

theorem heritage_eq (ts : List TypeTree) : heritage ts = heritageOf (ancestorTexts? ts) := by
  cases ts <;> rfl

theorem ancestorTexts?_eq_some {ts : List TypeTree} {texts : List String}
    (h : ancestorTexts? ts = some texts) : texts ≠ [] ∧ texts = ts.map TypeTree.text := by
  cases ts with
  | nil => cases h
  | cons t ts =>
    obtain rfl := Option.some.inj h
    exact ⟨List.cons_ne_nil _ _, rfl⟩

/-- No ancestors are written if there are none, or the response base only. -/
theorem ancestorTexts?_eq_none_iff {es : List TypeExpr} {ts : List TypeTree}
    (h : TypeExpr.trees p (writtenAncestors p es) = .ok ts) :
    ancestorTexts? ts = none ↔ es = [] ∨ isSoleBase p es := by
  have hlength := (TypeExpr.trees_eq_ok.mp h).length_eq
  have hnil : ancestorTexts? ts = none ↔ ts = [] := by cases ts <;> simp [ancestorTexts?]
  rw [hnil, ← List.length_eq_zero_iff, ← hlength, List.length_eq_zero_iff, writtenAncestors]
  by_cases hbase : isSoleBase p es <;> simp [hbase]

/-- If any are written, they all are. -/
theorem forall₂_ancestorTexts? {es : List TypeExpr} {ts : List TypeTree} {texts : List String}
    (h : TypeExpr.trees p (writtenAncestors p es) = .ok ts)
    (htexts : ancestorTexts? ts = some texts) :
    List.Forall₂ (fun e text => e.text p = .ok text) es texts := by
  have hbase : isSoleBase p es = false := by
    rw [← Bool.not_eq_true]
    exact fun hbase => nomatch htexts.symm.trans ((ancestorTexts?_eq_none_iff h).mpr (.inr hbase))
  rw [writtenAncestors, hbase] at h
  rw [(ancestorTexts?_eq_some htexts).2, List.forall₂_map_right_iff]
  exact (TypeExpr.trees_eq_ok.mp h).imp fun e t ht => map_eq_ok.mpr ⟨t, ht, rfl⟩

/-- **The header of an interface or a request keeps all of its ancestors**, each as a piece of its
own, or drops the response base if that is the only one. -/
theorem interface_header {d : Definition} {h : Header} (hd : d.header? = some h)
    (hnames : ∀ n ∈ d.names, Lacks marks n) {j j' : Journal} {text : String}
    (hrun : (d.declaration p).run.run j = (.ok text, j')) :
    ∃ comment header rest ancestors,
      linesOf text = comment ++ [header] ++ rest ∧ IsStabilityComment p h.name comment ∧
      HeaderReading.ofLine header = ⟨h.name, h.openGenerics, ancestors⟩ ∧
      (ancestors = none ↔ h.ancestors = [] ∨
        ∃ gs, h.ancestors = [.reference p.responseBase gs] ∨
          h.ancestors = [.implementation p.responseBase gs]) ∧
      ∀ texts, ancestors = some texts →
        List.Forall₂ (fun e text => e.text p = .ok text) h.ancestors texts := by
  obtain ⟨j₁, hperforms, -⟩ := declaration_performs p d j
  obtain ⟨t, ht, rfl⟩ := map_eq_ok.mp (congrArg Prod.fst (hperforms.symm.trans hrun))
  obtain ⟨header, memberLines, inside, hlines, hheader, -⟩ := exists_isInside hd ht
  rw [Header.line, extendsClause_eq] at hheader
  obtain ⟨_, hclause, rfl⟩ := map_eq_ok.mp hheader
  obtain ⟨ts, hts, rfl⟩ := map_eq_ok.mp hclause
  have hblock : IsBlock t.lines := Resolves.isBlock ht
    (fun n hn => hnames n hn '\n' (by decide)) (by simp [representations_eq_nil hd])
  obtain ⟨hname, hgenerics, hancestors⟩ : Lacks marks h.name ∧
      (∀ g ∈ h.openGenerics, Lacks marks g) ∧
      ∀ n ∈ TypeExpr.namesOf h.ancestors, Lacks marks n := by
    simpa only [Header.names, List.forall_mem_cons, List.forall_mem_append] using
      fun n hn => hnames n (Header.names_subset hd hn)
  have huncut : ∀ texts ∈ ancestorTexts? ts, texts ≠ [] ∧ ∀ s ∈ texts, UncutFrom 0 s := by
    intro texts htexts
    obtain ⟨hne, rfl⟩ := ancestorTexts?_eq_some htexts
    refine ⟨hne, List.forall_mem_map.mpr fun t ht => t.uncut_text fun n hn => ?_⟩
    exact (List.mem_append.mp (namesOf_writtenAncestors hts (TypeTree.mem_namesOf.mpr
      ⟨t, ht, hn⟩))).elim (fun hn => (hancestors n hn).uncut)
      fun hn => (lacks_marks_languageNames n hn).uncut
  refine ⟨_, "  export interface " ++ h.name ++ openGenericsText h.openGenerics ++
    heritage ts ++ " \x7b", inside ++ ["  \x7d"], ancestorTexts? ts, ?_,
    isStabilityComment_stabilityLines h.name, ?_, ?_, fun texts htexts => ?_⟩
  · rw [DeclarationTree.text, hblock.linesOf_intercalate, hlines, List.append_assoc]
  · rw [heritage_eq, HeaderReading.ofLine_header hname hgenerics huncut]
  · rw [ancestorTexts?_eq_none_iff hts, isSoleBase_iff]
  · exact forall₂_ancestorTexts? hts htexts

/-- An interface with the response base among its ancestors, and with ancestors that are written
with commas of their own. -/
def nodesResponse : Definition :=
  .interface ⟨"NodesResponse", ["TNode", "TMeta"],
    [.implementation "ResponseBase" [],
     .reference "Page" [.array (.reference "TNode" []), .singleKey (.reference "TMeta" [])],
     .implementation "DictionaryResponseBase"
      [.reference "string" [], .reference "Pair" [.reference "TNode" [], .reference "TMeta" []]]]⟩
    []

/-- It keeps the three of them. -/
theorem nodesResponse_header :
    ∃ comment header rest texts text j',
      (nodesResponse.declaration {}).run.run {} = (.ok text, j') ∧
      linesOf text = comment ++ [header] ++ rest ∧ IsStabilityComment {} "NodesResponse" comment ∧
      HeaderReading.ofLine header = ⟨"NodesResponse", ["TNode", "TMeta"], some texts⟩ ∧
      texts = ["ResponseBase", "Page<TNode[], Record<string, TMeta>>",
        "Record<string, Pair<TNode, TMeta>>"] := by
  obtain ⟨comment, header, rest, ancestors, hlines, hcomment, hheader, hnone, hsome⟩ :=
    interface_header (p := {}) (d := nodesResponse) (j := {}) rfl (by decide) rfl
  obtain ⟨texts, rfl⟩ : ∃ texts, ancestors = some texts :=
    Option.ne_none_iff_exists'.mp fun h => (hnone.mp h).elim nofun fun ⟨_, h⟩ =>
      h.elim nofun nofun
  refine ⟨comment, header, rest, texts, _, _, rfl, hlines, hcomment, hheader, ?_⟩
  exact List.right_unique_forall₂' (fun _ _ _ h h' => Except.ok.inj (h.symm.trans h'))
    (hsome texts rfl) (.cons rfl (.cons rfl (.cons rfl .nil)))

end TypeCatalog
