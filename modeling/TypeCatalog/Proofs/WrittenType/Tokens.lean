import Mathlib.Data.List.Chain
import TypeCatalog.Proofs.Related
import TypeCatalog.Proofs.WrittenType.Grammar
import TypeCatalog.Proofs.WrittenType.Names

/-!
# Proofs/WrittenType/Tokens — which written types can be read at all

`TypeTree.tokens` is what the text of a type is cut into, if its names are names
(`scans_tokens`).  A type is *full* if none of its unions and of its lists of arguments is empty
(`TypeTree.IsFull`), and these are the types whose text can be read (`exists_alternatives_iff`).

One direction builds the derivation.  For the other, an empty list leaves a hole: two tokens side by
side of which the first asks for an operand and the second is no name (`Fed`), and no derivation has
such a hole.
-/

namespace TypeCatalog

open TypeToken

namespace TypeTree

/-! ## Tokens of a type -/

mutual
/-- The tokens of a type. -/
def tokens : TypeTree → List TypeToken
  | name n => [.name n]
  | apply n arguments => .name n :: .less :: ([TypeToken.comma].intercalate (tokensOf arguments) ++
      [.greater])
  | array element => element.tokens ++ [.opening, .closing]
  | union items => [TypeToken.bar].intercalate (tokensOf items)

/-- The tokens of several types. -/
def tokensOf : List TypeTree → List (List TypeToken)
  | [] => []
  | t :: rest => t.tokens :: tokensOf rest
end

theorem tokensOf_eq_map (ts : List TypeTree) : tokensOf ts = ts.map tokens := by
  induction ts with
  | nil => rfl
  | cons t rest ih => rw [tokensOf, ih, List.map_cons]

/-- Texts of types between separators are cut into the tokens of the types. -/
theorem scans_intercalate {marks : List Char} {us : List TypeToken} (hmarks : Separates marks us)
    {ts : List TypeTree} (h : ∀ t ∈ ts, Scans t.text.toList t.tokens) :
    Scans (marks.intercalate ((ts.map text).map String.toList))
      (us.intercalate (ts.map tokens)) := by
  refine .intercalate hmarks ?_
  rw [List.map_map, List.forall₂_map_left_iff, List.forall₂_map_right_iff, List.forall₂_same]
  exact h

/-- **The text of a type is cut into the tokens of the type.** -/
theorem scans_tokens {t : TypeTree} (h : ∀ n ∈ t.names, isName n) :
    Scans t.text.toList t.tokens := by
  induction t using TypeTree.induct with
  | name n => exact .name (h n (List.mem_singleton_self n))
  | apply n arguments ih =>
    obtain ⟨hn, harguments⟩ := List.forall_mem_cons.mp h
    have hjoined := scans_intercalate separates_comma fun t ht =>
      ih t ht fun n hn => harguments n (mem_namesOf.mpr ⟨t, ht, hn⟩)
    have hscan := ((Scans.name hn).append_append separates_less hjoined).append separates_greater
    rw [text, tokens, texts_eq_map, tokensOf_eq_map]
    simpa using hscan
  | array element ih =>
    have hscan := (ih h).append separates_brackets
    rw [text, tokens]
    simpa using hscan
  | union items ih =>
    have hjoined := scans_intercalate separates_bar fun t ht =>
      ih t ht fun n hn => h n (mem_namesOf.mpr ⟨t, ht, hn⟩)
    rw [text, tokens, texts_eq_map, tokensOf_eq_map]
    simpa using hjoined

theorem exists_of_mem_intercalate {α : Type} {x : α} {sep : List α} {tss : List (List α)}
    (hx : x ∈ sep.intercalate tss) : x ∈ sep ∨ ∃ ts ∈ tss, x ∈ ts := by
  induction tss with
  | nil => cases hx
  | cons ts tss ih =>
    cases tss with
    | nil => exact .inr ⟨ts, List.mem_singleton_self ts, by rwa [List.intercalate_singleton] at hx⟩
    | cons second tss =>
      rw [List.intercalate_cons_cons, List.mem_append, List.mem_append] at hx
      obtain (hx | hx) | hx := hx
      · exact .inr ⟨ts, List.mem_cons_self, hx⟩
      · exact .inl hx
      · exact (ih hx).imp_right fun ⟨ts, hts, hx⟩ => ⟨ts, List.mem_cons_of_mem _ hts, hx⟩

/-- The names among the tokens of a type are names of the type. -/
theorem mem_names_of_mem_tokens {t : TypeTree} {n : String} (h : .name n ∈ t.tokens) :
    n ∈ t.names := by
  have hjoined {ts : List TypeTree} (ih : ∀ t ∈ ts, .name n ∈ t.tokens → n ∈ t.names)
      (sep : TypeToken) (hsep : sep ≠ .name n)
      (h : .name n ∈ [sep].intercalate (tokensOf ts)) : n ∈ namesOf ts := by
    rw [tokensOf_eq_map] at h
    obtain hmem | ⟨_, hts, hmem⟩ := exists_of_mem_intercalate h
    · exact absurd (List.mem_singleton.mp hmem).symm hsep
    · obtain ⟨t, ht, rfl⟩ := List.mem_map.mp hts
      exact mem_namesOf.mpr ⟨t, ht, ih t ht hmem⟩
  induction t using TypeTree.induct with
  | name m =>
    obtain rfl := TypeToken.name.inj (List.mem_singleton.mp h)
    exact List.mem_singleton_self n
  | apply m arguments ih =>
    obtain rfl | harguments :
        n = m ∨ .name n ∈ [TypeToken.comma].intercalate (tokensOf arguments) := by
      simpa [tokens] using h
    · exact List.mem_cons_self
    · exact List.mem_cons_of_mem _ (hjoined ih .comma nofun harguments)
  | array element ih => exact ih (by simpa [tokens] using h)
  | union items ih => exact hjoined ih .bar nofun h

/-! ## Full types -/

/-- No list of arguments and no union is empty. -/
inductive IsFull : TypeTree → Prop
  | name (n : String) : IsFull (.name n)
  | apply {n : String} {arguments : List TypeTree} : arguments ≠ [] →
      (∀ t ∈ arguments, IsFull t) → IsFull (.apply n arguments)
  | array {element : TypeTree} : IsFull element → IsFull (.array element)
  | union {items : List TypeTree} : items ≠ [] → (∀ t ∈ items, IsFull t) → IsFull (.union items)

/-- A type is a name, with or without arguments. -/
def IsHead : TypeTree → Prop
  | name _ => True
  | apply _ _ => True
  | _ => False

/-- A type stands for a name, with or without arguments: a union of one type stands for that. -/
inductive IsNamed : TypeTree → Prop
  | head {t : TypeTree} : t.IsHead → IsNamed t
  | union {t : TypeTree} : IsNamed t → IsNamed (.union [t])

theorem not_isNamed_array {element : TypeTree} : ¬ IsNamed (.array element) := by
  rintro ⟨⟨⟩⟩

theorem isNamed_union_iff {items : List TypeTree} :
    IsNamed (.union items) ↔ ∃ t, items = [t] ∧ t.IsNamed := by
  constructor
  · rintro (⟨⟨⟩⟩ | h)
    exact ⟨_, rfl, h⟩
  · rintro ⟨t, rfl, h⟩
    exact .union h

theorem ofAlternatives_isHead_iff {as : List TypeTree} :
    (ofAlternatives as).IsHead ↔ ∃ a, as = [a] ∧ a.IsHead := by
  match as with
  | [] => simp [ofAlternatives, IsHead]
  | [a] => simp [ofAlternatives]
  | a :: b :: rest => simp [ofAlternatives, IsHead]

theorem Alternatives.ne_nil {ts : List TypeToken} {as : List TypeTree} (h : Alternatives ts as) :
    as ≠ [] := by
  cases h <;> exact List.cons_ne_nil _ _

/-! ## Full types can be read -/

/-- What the tokens of a type are read as; whether that is one name tells whether the type stands
for one. -/
structure ReadAs (t : TypeTree) (as : List TypeTree) : Prop where
  derives : Alternatives t.tokens as
  isHead_iff : (ofAlternatives as).IsHead ↔ t.IsNamed

theorem ReadAs.derives_all {ts : List TypeTree} {ass : List (List TypeTree)}
    (h : List.Forall₂ ReadAs ts ass) : List.Forall₂ Alternatives (ts.map tokens) ass :=
  List.forall₂_map_left_iff.mpr (h.imp fun _ _ h => h.derives)

/-- A union is read as one name if it is a union of one that is. -/
theorem ReadAs.flatten_isHead_iff {ts : List TypeTree} {ass : List (List TypeTree)}
    (h : List.Forall₂ ReadAs ts ass) (hne : ts ≠ []) :
    (ofAlternatives ass.flatten).IsHead ↔ IsNamed (.union ts) := by
  rw [isNamed_union_iff]
  match ts, ass, h with
  | [], _, _ => exact absurd rfl hne
  | [t], [as], .cons head .nil => simp [head.isHead_iff]
  | t :: u :: ts, as :: bs :: ass, .cons head (.cons second tail) =>
    have has := List.length_pos_iff.mpr head.derives.ne_nil
    have hbs := List.length_pos_iff.mpr second.derives.ne_nil
    rw [ofAlternatives_isHead_iff]
    constructor
    · rintro ⟨a, hflat, -⟩
      have hlength := congrArg List.length hflat
      simp only [List.flatten_cons, List.length_append, List.length_singleton] at hlength
      omega
    · rintro ⟨_, ⟨⟩, _⟩

/-- **A full type can be read.** -/
theorem IsFull.exists_readAs {t : TypeTree} (h : t.IsFull) : ∃ as, ReadAs t as := by
  induction t using TypeTree.induct with
  | name n => exact ⟨_, .one (.name n), ⟨fun _ => .head trivial, fun _ => trivial⟩⟩
  | apply n arguments ih =>
    cases h with
    | apply hne harguments =>
      obtain ⟨ass, hass⟩ := Related.exists_forall₂_iff.mpr fun t ht => ih t ht (harguments t ht)
      have hargs := Arguments.intercalate (ReadAs.derives_all hass) (mt List.map_eq_nil_iff.mp hne)
      rw [← tokensOf_eq_map] at hargs
      exact ⟨_, .one (.apply hargs), ⟨fun _ => .head trivial, fun _ => trivial⟩⟩
  | array element ih =>
    cases h with
    | array helement =>
      obtain ⟨as, has⟩ := ih helement
      obtain ⟨init, last, rfl⟩ := (List.eq_nil_or_concat' as).resolve_left has.derives.ne_nil
      -- The brackets bind the last alternative only; so what is read ends in an array, and is no
      -- name even if it is the only one.
      refine ⟨_, has.derives.array, fun h => ?_, fun h => absurd h not_isNamed_array⟩
      obtain ⟨a, heq, ha⟩ := ofAlternatives_isHead_iff.mp h
      obtain ⟨-, hlast⟩ := List.append_inj' (heq.trans (List.nil_append _).symm) rfl
      obtain rfl := List.singleton_inj.mp hlast
      exact ha.elim
  | union items ih =>
    cases h with
    | union hne hitems =>
      obtain ⟨ass, hass⟩ := Related.exists_forall₂_iff.mpr fun t ht => ih t ht (hitems t ht)
      have hbars := Alternatives.intercalate (ReadAs.derives_all hass)
        (mt List.map_eq_nil_iff.mp hne)
      rw [← tokensOf_eq_map] at hbars
      exact ⟨_, hbars, ReadAs.flatten_isHead_iff hass hne⟩

/-! ## Other types cannot -/

/-- After a token an operand is asked for. -/
def Asks : TypeToken → Prop
  | .less => True
  | .comma => True
  | .bar => True
  | _ => False

/-- If an operand is asked for, there is a name. -/
def Fed (a b : TypeToken) : Prop := Asks a → ∃ n, b = .name n

theorem isChain_cons_of_not_asks {a : TypeToken} {rest : List TypeToken} (ha : ¬ Asks a)
    (h : rest.IsChain Fed) : (a :: rest).IsChain Fed :=
  List.isChain_cons.mpr ⟨fun _ _ hasks => absurd hasks ha, h⟩

mutual
theorem Operand.isChain {ts : List TypeToken} {t : TypeTree} : Operand ts t →
    ∀ a {rest : List TypeToken}, rest.IsChain Fed → (a :: (ts ++ rest)).IsChain Fed
  | .name n, _, _, hrest =>
    List.isChain_cons_cons.mpr ⟨fun _ => ⟨n, rfl⟩, isChain_cons_of_not_asks id hrest⟩
  | @Operand.apply n _ _ h, _, rest, hrest => by
    have := h.isChain .less (isChain_cons_of_not_asks (a := .greater) id hrest)
    rw [List.cons_append, List.cons_append, List.append_assoc]
    exact List.isChain_cons_cons.mpr ⟨fun _ => ⟨n, rfl⟩, isChain_cons_of_not_asks id this⟩
  | .array h, a, rest, hrest => by
    rw [List.append_assoc]
    exact h.isChain a (isChain_cons_of_not_asks id (isChain_cons_of_not_asks id hrest))

theorem Alternatives.isChain {ts : List TypeToken} {as : List TypeTree} : Alternatives ts as →
    ∀ a {rest : List TypeToken}, rest.IsChain Fed → (a :: (ts ++ rest)).IsChain Fed
  | .one h, a, _, hrest => h.isChain a hrest
  | .more h h', a, _, hrest => by
    rw [List.append_assoc]
    exact h.isChain a (h'.isChain .bar hrest)

/-- In what can be read, every operand that is asked for is there. -/
theorem Arguments.isChain {ts : List TypeToken} {args : List TypeTree} : Arguments ts args →
    ∀ a {rest : List TypeToken}, rest.IsChain Fed → (a :: (ts ++ rest)).IsChain Fed
  | .one h, a, _, hrest => h.isChain a hrest
  | .more h h', a, _, hrest => by
    rw [List.append_assoc]
    exact h.isChain a (h'.isChain .comma hrest)
end

/-- A token that ends an operand. -/
def Ends (b : TypeToken) : Prop := ∀ n, b ≠ .name n

/-- Where an operand is asked for there is one. -/
theorem not_isChain {a b : TypeToken} (ha : Asks a) (hb : Ends b) : ¬ [a, b].IsChain Fed := by
  intro h
  obtain ⟨n, rfl⟩ := (List.isChain_cons_cons.mp h).1 ha
  exact hb n rfl

/-- Each of the parts between separators is asked for, and ended. -/
theorem isChain_of_intercalate {s : TypeToken} (hasks : Asks s) (hends : Ends s)
    {tss : List (List TypeToken)} {a b : TypeToken} (ha : Asks a) (hb : Ends b)
    (h : (a :: ([s].intercalate tss ++ [b])).IsChain Fed) :
    ∀ ts ∈ tss, ∃ a b, Asks a ∧ Ends b ∧ (a :: (ts ++ [b])).IsChain Fed := by
  induction tss generalizing a with
  | nil => exact nofun
  | cons ts tss ih =>
    cases tss with
    | nil =>
      rw [List.intercalate_singleton] at h
      exact List.forall_mem_singleton.mpr ⟨a, b, ha, hb, h⟩
    | cons second tss =>
      rw [List.intercalate_cons_cons, List.append_assoc, List.append_assoc, ← List.cons_append,
        List.singleton_append, List.isChain_split] at h
      exact List.forall_mem_cons.mpr ⟨⟨a, s, ha, hends, h.1⟩, ih hasks h.2⟩

/-- **A type whose tokens stand where an operand is asked for, and leave none out, is full.** -/
theorem isFull_of_isChain {t : TypeTree} {a b : TypeToken} (ha : Asks a) (hb : Ends b)
    (h : (a :: (t.tokens ++ [b])).IsChain Fed) : t.IsFull := by
  induction t using TypeTree.induct generalizing a b with
  | name n => exact .name n
  | apply n arguments ih =>
    rw [tokens, tokensOf_eq_map, List.cons_append, List.cons_append, List.append_assoc] at h
    have hless : (.less :: ([TypeToken.comma].intercalate (arguments.map tokens) ++
        [.greater])).IsChain Fed := (List.isChain_split.mp (show ((.less ::
          [TypeToken.comma].intercalate (arguments.map tokens)) ++ .greater :: [b]).IsChain Fed from
        h.tail.tail)).1
    have hparts := isChain_of_intercalate (s := .comma) (a := .less) (b := .greater) trivial
      nofun trivial nofun hless
    refine .apply (fun hnil => ?_) fun t ht => ?_
    · subst hnil
      exact not_isChain (a := .less) (b := .greater) trivial nofun hless
    · obtain ⟨a, b, ha, hb, hchain⟩ := hparts t.tokens (List.mem_map_of_mem ht)
      exact ih t ht ha hb hchain
  | array element ih =>
    rw [tokens, List.append_assoc, List.cons_append, ← List.cons_append, List.isChain_split] at h
    exact .array (ih ha (b := .opening) nofun h.1)
  | union items ih =>
    rw [tokens, tokensOf_eq_map] at h
    have hparts := isChain_of_intercalate (s := .bar) trivial nofun ha hb h
    refine .union (fun hnil => ?_) fun t ht => ?_
    · subst hnil
      exact not_isChain ha hb h
    · obtain ⟨a, b, ha, hb, hchain⟩ := hparts t.tokens (List.mem_map_of_mem ht)
      exact ih t ht ha hb hchain

/-! ## What can be read -/

/-- **The tokens of a type can be read if and only if the type is full.** -/
theorem exists_alternatives_iff {t : TypeTree} : (∃ as, Alternatives t.tokens as) ↔ t.IsFull := by
  constructor
  · rintro ⟨as, has⟩
    exact isFull_of_isChain (a := .bar) (b := .bar) trivial nofun
      (has.isChain .bar (List.isChain_singleton _))
  · intro h
    obtain ⟨as, has⟩ := h.exists_readAs
    exact ⟨as, has.derives⟩

/-- No tokens are read as two lists of arguments. -/
theorem Arguments.unique {ts : List TypeToken} {args args' : List TypeTree}
    (h : Arguments ts args) (h' : Arguments ts args') : args = args' := by
  have := (h.foldl_take "" [] [] []).symm.trans (h'.foldl_take "" [] [] [])
  simpa using this

/-- **Types with commas between them can be read as names if and only if they are full and each
stands for a name.** -/
theorem exists_arguments_iff {ts : List TypeTree} (hne : ts ≠ []) :
    (∃ args, Arguments ([TypeToken.comma].intercalate (ts.map tokens)) args ∧
      ∀ a ∈ args, a.IsHead) ↔ ∀ t ∈ ts, t.IsFull ∧ t.IsNamed := by
  have hread (hfull : ∀ t ∈ ts, t.IsFull) : ∃ ass, List.Forall₂ ReadAs ts ass ∧
      Arguments ([TypeToken.comma].intercalate (ts.map tokens)) (ass.map ofAlternatives) := by
    obtain ⟨ass, hass⟩ := Related.exists_forall₂_iff.mpr fun t ht => (hfull t ht).exists_readAs
    exact ⟨ass, hass, .intercalate (ReadAs.derives_all hass) (mt List.map_eq_nil_iff.mp hne)⟩
  constructor
  · rintro ⟨args, hargs, hheads⟩
    have hparts := isChain_of_intercalate (s := .comma) trivial nofun (a := .comma) (b := .comma)
      trivial nofun (hargs.isChain .comma (List.isChain_singleton _))
    have hfull : ∀ t ∈ ts, t.IsFull := fun t ht => by
      obtain ⟨a, b, ha, hb, hchain⟩ := hparts t.tokens (List.mem_map_of_mem ht)
      exact isFull_of_isChain ha hb hchain
    obtain ⟨ass, hass, hargs'⟩ := hread hfull
    obtain rfl := hargs.unique hargs'
    have hall : ∀ t ∈ ts, t.IsNamed := Related.forall_mem_of_forall₂
      (fun as has t ht => ht.isHead_iff.mp (hheads _ (List.mem_map_of_mem has))) hass.flip
    exact fun t ht => ⟨hfull t ht, hall t ht⟩
  · intro h
    obtain ⟨ass, hass, hargs⟩ := hread fun t ht => (h t ht).1
    refine ⟨_, hargs, List.forall_mem_map.mpr ?_⟩
    exact Related.forall_mem_of_forall₂ (fun t ht as has => has.isHead_iff.mpr (h t ht).2) hass

end TypeTree

end TypeCatalog
