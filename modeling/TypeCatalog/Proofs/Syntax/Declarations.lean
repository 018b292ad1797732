import TypeCatalog.Proofs.Generation.Names
import TypeCatalog.Proofs.Syntax.Lines

/-!
# Proofs/Syntax/Declarations — when a declaration is one of the language

A declaration whose names are identifiers, and whose representations can be quoted, is one of the
language if and only if nothing is left out of it (`DeclarationTree.IsFull`): its types are full,
its ancestors stand for names, and a union of literals has some.
-/

namespace TypeCatalog

open TypeToken Syntax

/-! ## Types -/

namespace TypeTree

theorem namesIdentify_text {t : TypeTree} (h : ∀ n ∈ t.names, isIdentifier n) :
    NamesIdentify t.text := by
  intro n hn
  rw [(scans_tokens fun n hn => isName_of_isIdentifier (h n hn)).scan_eq] at hn
  exact h n (mem_names_of_mem_tokens hn)

/-- **The text of a type is a type of the language if and only if the type is full.** -/
theorem isType_text_iff {t : TypeTree} (h : ∀ n ∈ t.names, isIdentifier n) :
    IsType t.text ↔ t.IsFull := by
  rw [IsType, (scans_tokens fun n hn => isName_of_isIdentifier (h n hn)).scan_eq,
    exists_alternatives_iff]
  exact and_iff_right (namesIdentify_text h)

/-- The text of types with commas between them is cut into their tokens. -/
theorem scan_commas {ts : List TypeTree} (h : ∀ n ∈ namesOf ts, isIdentifier n) :
    scan [] (", ".intercalate (ts.map text)).toList =
      [TypeToken.comma].intercalate (ts.map tokens) := by
  rw [String.toList_intercalate]
  exact (scans_intercalate separates_comma fun t ht => scans_tokens fun n hn =>
    isName_of_isIdentifier (h n (mem_namesOf.mpr ⟨t, ht, hn⟩))).scan_eq

/-- **Types with commas between them are heads of the language if and only if they are full and
stand for names.** -/
theorem isHeads_iff {ts : List TypeTree} (hne : ts ≠ []) (h : ∀ n ∈ namesOf ts, isIdentifier n) :
    IsHeads (", ".intercalate (ts.map text)) ↔ ∀ t ∈ ts, t.IsFull ∧ t.IsNamed := by
  have hnames : NamesIdentify (", ".intercalate (ts.map text)) := by
    intro n hn
    rw [scan_commas h] at hn
    obtain hmem | ⟨_, hts, hmem⟩ := exists_of_mem_intercalate hn
    · cases List.mem_singleton.mp hmem
    · obtain ⟨t, ht, rfl⟩ := List.mem_map.mp hts
      exact h n (mem_namesOf.mpr ⟨t, ht, mem_names_of_mem_tokens hmem⟩)
  rw [IsHeads, and_iff_right hnames, scan_commas h, exists_arguments_iff hne]

end TypeTree

/-! ## Aliases -/

theorem mem_intercalate {c : Char} (mark : String) {texts : List String} {text : String}
    (htext : text ∈ texts) (hc : c ∈ text.toList) : c ∈ (mark.intercalate texts).toList := by
  induction texts with
  | nil => cases htext
  | cons first texts ih =>
    cases texts with
    | nil =>
      rw [String.intercalate_singleton]
      exact List.mem_singleton.mp htext ▸ hc
    | cons second texts =>
      rw [String.intercalate_cons_cons, String.toList_append, String.toList_append,
        List.mem_append, List.mem_append]
      obtain rfl | htext := List.mem_cons.mp htext
      · exact .inl (.inl hc)
      · exact .inr (ih htext)

/-- Literals are a type of the language if they hold no quotes: then they are truth values. -/
theorem isType_literals {ls : List String} (hne : ls ≠ []) (h : ∀ l ∈ ls, IsLiteral l)
    (hquotes : '"' ∉ (" | ".intercalate ls).toList) : IsType (" | ".intercalate ls) := by
  have hidentifiers : ∀ l ∈ ls, isIdentifier l := by
    intro l hl
    cases h l hl with
    | true => decide
    | false => decide
    | quoted => exact absurd (mem_intercalate _ hl (by simp)) hquotes
  -- Only `true` and `false` are left, and these are read as names.
  have htext : (TypeTree.union (ls.map .name)).text = " | ".intercalate ls := by
    rw [TypeTree.text, TypeTree.texts_eq_map, List.map_map]
    exact congrArg _ (List.map_id ls)
  rw [← htext, TypeTree.isType_text_iff]
  · exact .union (mt List.map_eq_nil_iff.mp hne) (List.forall_mem_map.mpr fun l _ => .name l)
  · intro n hn
    obtain ⟨t, ht, hn⟩ := TypeTree.mem_namesOf.mp hn
    obtain ⟨l, hl, rfl⟩ := List.mem_map.mp ht
    exact hidentifiers n (List.mem_singleton.mp hn ▸ hl)

theorem TypeTree.isAliased_text_iff {t : TypeTree} (h : ∀ n ∈ t.names, isIdentifier n) :
    IsAliased t.text ↔ t.IsFull := by
  rw [← isType_text_iff h]
  constructor
  · generalize htext : t.text = text
    rintro (htype | ⟨hne, hls⟩)
    · exact htype
    · exact isType_literals hne hls (htext ▸ (namesIdentify_text h).not_mem (by decide) (by decide))
  · exact .type

theorem isLiteral_literal {representation : String} (h : isQuotable representation) :
    IsLiteral (literal representation) := by
  rw [literal]
  split
  · rename_i hbool
    obtain rfl | rfl := hbool
    · exact .true
    · exact .false
  · exact .quoted h

theorem Syntax.IsLiteral.exists_mem {text : String} (h : IsLiteral text) :
    ∃ c, c ∈ text.toList := by
  cases h with
  | true => exact ⟨'t', by decide⟩
  | false => exact ⟨'f', by decide⟩
  | quoted => exact ⟨'"', by simp⟩

theorem not_isAliased_empty : ¬ IsAliased "" := by
  generalize hempty : "" = text
  rintro (htype | ⟨hne, hls⟩)
  · subst hempty
    have hfull : (TypeTree.union []).IsFull :=
      (TypeTree.isType_text_iff fun n hn => absurd hn List.not_mem_nil).mp htype
    cases hfull with
    | union hne _ => exact hne rfl
  · obtain ⟨l, hl⟩ := List.exists_mem_of_ne_nil _ hne
    obtain ⟨c, hc⟩ := (hls l hl).exists_mem
    have := mem_intercalate " | " hl hc
    rw [← hempty] at this
    cases this

theorem isAliased_literals_iff {representations : List String}
    (h : ∀ r ∈ representations, isQuotable r) :
    IsAliased (" | ".intercalate (representations.map literal)) ↔ representations ≠ [] := by
  constructor
  · rintro haliased rfl
    exact not_isAliased_empty haliased
  · exact fun hne => .literals (mt List.map_eq_nil_iff.mp hne)
      (List.forall_mem_map.mpr fun r hr => isLiteral_literal (h r hr))

/-! ## Declarations -/

/-- The types of a body are full. -/
def BodyTree.IsFull : BodyTree → Prop
  | members ms => ∀ m ∈ ms, m.type.IsFull
  | type t => t.IsFull

/-- The types of an interface are full, and its ancestors stand for names. -/
structure InterfaceTree.IsFull (i : InterfaceTree) : Prop where
  ancestors : ∀ t ∈ i.ancestors, t.IsFull ∧ t.IsNamed
  members : ∀ m ∈ i.members, m.type.IsFull
  body : ∀ b, i.body = some b → b.IsFull

/-- Nothing is left out of a declaration. -/
def DeclarationTree.IsFull : DeclarationTree → Prop
  | typeAlias _ type => type.IsFull
  | literals _ representations => representations ≠ []
  | enumeration _ _ => True
  | interface tree => tree.IsFull

theorem MemberTree.isMember {m : MemberTree} {indent : String}
    (hnames : ∀ n ∈ m.names, isIdentifier n) (h : m.type.IsFull) :
    IsMember indent (m.line indent) := by
  obtain ⟨hname, htype⟩ := List.forall_mem_cons.mp hnames
  rw [line, memberKey_of_isIdentifier hname]
  exact .mk m.optional hname ((TypeTree.isType_text_iff htype).mpr h)

/-- A member is judged by its line. -/
theorem MemberTree.isFull_of_line {m : MemberTree} {indent : String}
    (hindent : indent ∈ keyIndents) (hnames : ∀ n ∈ m.names, isIdentifier n)
    (h : IsDeclarationLine (m.line indent)) : m.type.IsFull := by
  obtain ⟨hname, htype⟩ := List.forall_mem_cons.mp hnames
  rw [line, memberKey_of_isIdentifier hname] at h
  exact (TypeTree.isType_text_iff htype).mp
    (h.isType hindent hname (TypeTree.namesIdentify_text htype))

/-- A body is judged by its lines. -/
theorem BodyTree.isFull_of_lines {b : BodyTree} (hnames : ∀ n ∈ b.names, isIdentifier n)
    (h : ∀ l ∈ b.lines, IsDeclarationLine l) : b.IsFull := by
  cases b with
  | members ms =>
    intro m hm
    have hline : m.line bodyIndent ∈ (members ms).lines :=
      List.mem_append_left _ (List.mem_append_right _ (List.mem_map_of_mem hm))
    exact m.isFull_of_line (by decide)
      (fun n hn => hnames n (List.mem_flatMap.mpr ⟨m, hm, hn⟩)) (h _ hline)
  | type t =>
    have hline : IsDeclarationLine
        ("    " ++ "body" ++ (if true then "?" else "") ++ ": " ++ t.text) :=
      h _ (List.mem_singleton_self _)
    exact (TypeTree.isType_text_iff hnames).mp
      (hline.isType (by decide) (by decide) (TypeTree.namesIdentify_text hnames))

theorem BodyTree.isMembers {b : BodyTree} (hnames : ∀ n ∈ b.names, isIdentifier n)
    (h : b.IsFull) : IsMembers b.lines := by
  cases b with
  | members ms =>
    have hlines : ∀ l ∈ ms.map (MemberTree.line bodyIndent), IsMember "      " l :=
      List.forall_mem_map.mpr fun m hm =>
        m.isMember (fun n hn => hnames n (List.mem_flatMap.mpr ⟨m, hm, hn⟩)) (h m hm)
    have hbody := IsMembers.body hlines .nil
    rwa [List.append_nil] at hbody
  | type t =>
    have hline : IsMember "    "
        ("    " ++ "body" ++ (if true then "?" else "") ++ ": " ++ t.text) :=
      .mk true (by decide) ((TypeTree.isType_text_iff hnames).mpr h)
    exact .member hline .nil

theorem isGenerics_openGenericsText {gs : List String} (h : ∀ g ∈ gs, isIdentifier g) :
    IsGenerics (openGenericsText gs) := by
  cases gs with
  | nil => exact .none
  | cons g gs => exact .list (List.cons_ne_nil _ _) h

theorem isClause_heritage (ts : List TypeTree) : IsClause (heritage ts) := by
  cases ts with
  | nil => exact .inl rfl
  | cons t ts => exact .inr ⟨"extends " ++ _, by rw [← String.append_assoc]; rfl⟩

theorem isHeritage_iff {ts : List TypeTree} (h : ∀ n ∈ TypeTree.namesOf ts, isIdentifier n) :
    IsHeritage (heritage ts) ↔ ∀ t ∈ ts, t.IsFull ∧ t.IsNamed := by
  cases ts with
  | nil => exact ⟨fun _ => nofun, fun _ => .none⟩
  | cons t ts =>
    rw [heritage, ← TypeTree.isHeads_iff (List.cons_ne_nil t ts) h]
    · constructor
      · generalize hl : " extends " ++ ", ".intercalate ((t :: ts).map TypeTree.text) = l
        rintro (_ | hheads)
        · simpa using congrArg String.toList hl
        · rwa [(String.append_right_inj _).mp hl]
      · exact .heads
    · exact nofun

namespace InterfaceTree

variable {i : InterfaceTree}

/-- A line of a body is a line of the interface. -/
theorem mem_lines_of_body {b : BodyTree} (hb : i.body = some b) {l : String} (hl : l ∈ b.lines) :
    l ∈ i.lines := by
  simp [lines, hb, hl]

/-- The names in an interface, sorted by where they stand. -/
theorem forall_names_iff {P : String → Prop} : (∀ n ∈ i.names, P n) ↔
    P i.name ∧ (∀ g ∈ i.openGenerics, P g) ∧ (∀ n ∈ TypeTree.namesOf i.ancestors, P n) ∧
      (∀ m ∈ i.members, ∀ n ∈ m.names, P n) ∧ ∀ b, i.body = some b → ∀ n ∈ b.names, P n := by
  have hbody : (∀ n ∈ i.body.elim [] BodyTree.names, P n) ↔
      ∀ b, i.body = some b → ∀ n ∈ b.names, P n := by
    cases i.body <;> simp
  simp only [names, List.forall_mem_append, List.forall_mem_cons, hbody, List.mem_flatMap,
    forall_exists_index, and_imp, and_assoc]
  grind

/-- An interface is judged by its lines. -/
theorem isFull_of_lines (hnames : ∀ n ∈ i.names, isIdentifier n)
    (h : ∀ l ∈ i.lines, IsDeclarationLine l) : i.IsFull := by
  obtain ⟨hname, hgenerics, hancestors, hmembers, hbody⟩ := forall_names_iff.mp hnames
  refine ⟨?_, fun m hm => ?_, fun b hb => ?_⟩
  · have hheader : IsDeclarationLine i.header := h _ (by simp [lines])
    exact (isHeritage_iff hancestors).mp (hheader.isHeritage hname
      (isGenerics_openGenericsText hgenerics) (isClause_heritage _))
  · have hline : m.line memberIndent ∈ i.lines := by
      rw [lines]
      exact List.mem_append_left _ (List.mem_append_right _
        (List.mem_append_left _ (List.mem_map_of_mem hm)))
    exact m.isFull_of_line (by decide) (hmembers m hm) (h _ hline)
  · exact b.isFull_of_lines (hbody b hb) fun l hl => h l (mem_lines_of_body hb hl)

theorem isComment_stability (o : Option Stability) : IsComment (o.elim [] Stability.lines) := by
  cases o with
  | none => exact .none
  | some s =>
    have hcomment : IsComment
        ["  /**", "   * " ++ ("@description Stability: " ++ s.word), "   */"] := by
      cases s <;> exact .lines (by decide) (by decide)
    rwa [← String.append_assoc] at hcomment

theorem isMembers {ms : List MemberTree} (hnames : ∀ m ∈ ms, ∀ n ∈ m.names, isIdentifier n)
    (h : ∀ m ∈ ms, m.type.IsFull) {rest : List String} (hrest : IsMembers rest) :
    IsMembers (ms.map (MemberTree.line memberIndent) ++ rest) := by
  induction ms with
  | nil => exact hrest
  | cons m ms ih =>
    obtain ⟨hm, hms⟩ := List.forall_mem_cons.mp h
    obtain ⟨hnm, hnms⟩ := List.forall_mem_cons.mp hnames
    exact .member (m.isMember hnm hm) (ih hnms hms)

theorem isDeclaration_of_isFull (hnames : ∀ n ∈ i.names, isIdentifier n) (h : i.IsFull) :
    IsDeclaration i.lines := by
  obtain ⟨hname, hgenerics, hancestors, hmembers, hbody⟩ := forall_names_iff.mp hnames
  refine .interface (isComment_stability _) ?_ (isMembers hmembers h.members ?_)
  · exact .mk hname (isGenerics_openGenericsText hgenerics)
      ((isHeritage_iff hancestors).mpr h.ancestors)
  · cases hb : i.body with
    | none => exact .nil
    | some b => exact b.isMembers (hbody b hb) (h.body b hb)

end InterfaceTree

/-- **A declaration is one of the language if and only if nothing is left out of it.** -/
theorem DeclarationTree.isDeclaration_iff {t : DeclarationTree}
    (hnames : ∀ n ∈ t.names, isIdentifier n)
    (hrepresentations : ∀ r ∈ t.representations, isQuotable r) :
    IsDeclaration t.lines ↔ t.IsFull := by
  cases t with
  | typeAlias name type =>
    obtain ⟨hname, htype⟩ := List.forall_mem_cons.mp hnames
    rw [IsFull, ← TypeTree.isAliased_text_iff htype]
    exact ⟨fun h => (h.forall_line _ (List.mem_singleton_self _)).isAliased hname,
      .typeAlias hname⟩
  | literals name representations =>
    have hname := hnames name (List.mem_singleton_self name)
    have haliased : IsAliased (" | ".intercalate (representations.map literal)) ↔
        representations ≠ [] := isAliased_literals_iff hrepresentations
    rw [IsFull, ← haliased]
    exact ⟨fun h => (h.forall_line _ (List.mem_singleton_self _)).isAliased hname,
      .typeAlias hname⟩
  | enumeration name members =>
    obtain ⟨hname, hmembers⟩ := List.forall_mem_cons.mp hnames
    refine iff_of_true (.enumeration hname (List.forall_mem_map.mpr fun m hm => ?_)) trivial
    rw [Member.line, memberKey_of_isIdentifier (hmembers _ (List.mem_map_of_mem hm))]
    exact .mk (hmembers _ (List.mem_map_of_mem hm)) (hrepresentations _ (List.mem_map_of_mem hm))
  | interface tree =>
    exact ⟨fun h => tree.isFull_of_lines hnames h.forall_line, tree.isDeclaration_of_isFull hnames⟩

end TypeCatalog
