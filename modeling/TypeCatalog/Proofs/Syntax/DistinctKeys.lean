import Mathlib.Data.List.Nodup
import TypeCatalog.Proofs.Layout.InterfaceLines
import TypeCatalog.Proofs.Syntax.Key

/-!
# Proofs/Syntax/DistinctKeys — different names have different keys

The name of a member can be read off its key, whatever characters it holds (`nameOfKey`): only a key
between quotes starts with a quote, since a name that starts with one is itself put between quotes.
So a block in which no two members have one name has no key twice (`nodup_block_keys`).

Different keys do not make different lines, as a name may end in what stands behind a key.  The
lines are read as members of different names if every name has a key that stands for it
(`nodup_read_names`).
-/

namespace TypeCatalog.Syntax

variable {p : Profile}

/-! ## The name in a key -/

/-- The name that a key is written for: what is between the quotes of a key that starts with one,
and any other key as it is. -/
def nameOfKey (key : String) : String :=
  if key.toList.head? = some '"' then String.ofList key.toList.tail.dropLast else key

theorem nameOfKey_quote (name : String) : nameOfKey (quote name) = name := by
  simp [nameOfKey, toList_quote]

/-- **The name can be read off its key.** -/
theorem nameOfKey_memberKey (name : String) : nameOfKey (memberKey name) = name := by
  cases hquotes : needsQuotes name with
  | true => rw [memberKey_of_needsQuotes hquotes, nameOfKey_quote]
  | false =>
    rw [memberKey_of_not_needsQuotes hquotes, nameOfKey,
      if_neg (head?_ne_of_not_needsQuotes hquotes)]

theorem memberKey_injective : Function.Injective memberKey :=
  Function.LeftInverse.injective nameOfKey_memberKey

/-! ## Blocks -/

/-- The keys of members differ if their names do. -/
theorem nodup_keys {α : Type} {name : α → String} {members : List α}
    (h : (members.map name).Nodup) : (members.map fun m => memberKey (name m)).Nodup := by
  have hkeys := List.Nodup.map memberKey_injective h
  rwa [List.map_map] at hkeys

/-- Members that have a type differ in their names if all members do. -/
theorem nodup_typed_names {members : List Property} (h : (members.map (·.name)).Nodup) :
    ((typed members).map (·.name)).Nodup :=
  h.sublist (List.filter_sublist.map _)

/-- An interface is written as a block with one line for each member that has a type. -/
theorem exists_interface_block {h : Header} {members : List Property} {text : String}
    (htext : Declares p (.interface h members) text) :
    ∃ header lines,
      text = "\n".intercalate
        (stabilityLines h.name p.stableNames ++ [header] ++ lines ++ ["  \x7d"]) ∧
      h.line p = .ok header ∧ List.Forall₂ (IsMemberLine p "    ") (typed members) lines := by
  obtain ⟨t, ht, rfl⟩ := htext.exists_resolves
  obtain ⟨header, _, _, hlines, hheader, hinside⟩ := exists_isInside rfl ht
  cases hinside with
  | interface hmembers => exact ⟨header, _, congrArg _ hlines, hheader, hmembers⟩

/-- Out of union mode, an enumeration is written as a block with one line for each member. -/
theorem declares_enumeration_block (h : p.enumAsUnion = false) (name : String)
    (members : List Member) :
    Declares p (.enumeration name members)
      ("\n".intercalate (["  export enum " ++ name ++ " \x7b"] ++ members.map Member.line ++
        ["  \x7d"])) := by
  have htree : Resolves p (.enumeration name members) (.enumeration name members) := by
    rw [Resolves, Definition.tree, h, if_neg Bool.false_ne_true]
  exact htree.declares

/-- **Different names have different keys.**  So the keys in a block differ if the names of the
members do: in the block of an interface, which has a key for each member with a type, and in that
of an enumeration, which has one for each member. -/
theorem nodup_block_keys :
    (∀ a b : String, memberKey a = memberKey b → a = b) ∧
    (∀ (p : Profile) (h : Header) (members : List Property) (text : String),
      (members.map (·.name)).Nodup → Declares p (.interface h members) text →
      ∃ header lines,
        text = "\n".intercalate
          (stabilityLines h.name p.stableNames ++ [header] ++ lines ++ ["  \x7d"]) ∧
        h.line p = .ok header ∧ List.Forall₂ (IsMemberLine p "    ") (typed members) lines ∧
        ((typed members).map fun q => memberKey q.name).Nodup) ∧
    ∀ (p : Profile) (name : String) (members : List Member),
      (members.map (·.name)).Nodup → p.enumAsUnion = false →
      Declares p (.enumeration name members)
        ("\n".intercalate (["  export enum " ++ name ++ " \x7b"] ++
          members.map (fun m => "    " ++ memberKey m.name ++ " = \"" ++ m.representation ++ "\",") ++
          ["  \x7d"])) ∧
      (members.map fun m => memberKey m.name).Nodup := by
  refine ⟨memberKey_injective, fun p h members text hnames htext => ?_,
    fun p name members hnames hmode => ?_⟩
  · obtain ⟨header, lines, hblock, hheader, hlines⟩ := exists_interface_block htext
    exact ⟨header, lines, hblock, hheader, hlines, nodup_keys (nodup_typed_names hnames)⟩
  · exact ⟨declares_enumeration_block hmode name members, nodup_keys hnames⟩

/-- Members with names in and out of quotes, of which one has no type. -/
def quotedTwins : List Property :=
  [⟨"index", some (.reference "string" []), false⟩,
   ⟨"\"index\"", some (.reference "string" []), true⟩,
   ⟨"page.size", none, false⟩,
   ⟨"\"page.size\"", some (.array (.reference "integer" [])), false⟩,
   ⟨"", some (.reference "Sort" []), true⟩]

/-- Their keys differ, bare, between quotes and empty, and so do those of an enumeration of twins.
-/
theorem quotedTwins_keys :
    (quotedTwins.map (·.name)).Nodup ∧
    (∃ text header lines, Declares {} (.interface ⟨"Twins", [], []⟩ quotedTwins) text ∧
      text = "\n".intercalate
        (stabilityLines "Twins" (Profile.stableNames {}) ++ [header] ++ lines ++ ["  \x7d"]) ∧
      Header.line {} ⟨"Twins", [], []⟩ = .ok header ∧
      List.Forall₂ (IsMemberLine {} "    ") (typed quotedTwins) lines ∧
      ((typed quotedTwins).map fun q => memberKey q.name).Nodup) ∧
    ∃ text, Declares {} (.enumeration "Order" [⟨"asc", "asc"⟩, ⟨"\"asc\"", "asc"⟩]) text ∧
      (["asc", "\"asc\""].map memberKey).Nodup := by
  have hnames : (quotedTwins.map (·.name)).Nodup := by decide
  have htext : Declares {} (.interface ⟨"Twins", [], []⟩ quotedTwins) _ := fun j => rfl
  obtain ⟨header, lines, hlines⟩ :=
    nodup_block_keys.2.1 {} ⟨"Twins", [], []⟩ quotedTwins _ hnames htext
  exact ⟨hnames, ⟨_, header, lines, htext, hlines⟩, _,
    nodup_block_keys.2.2 {} "Order" [⟨"asc", "asc"⟩, ⟨"\"asc\"", "asc"⟩] (by decide) rfl⟩

/-! ## Lines, as they are read -/

/-- The lines of members whose names have keys are read with these names only. -/
theorem read_names_eq {indent : String} {members : List Property} {lines names : List String}
    (hkeys : ∀ q ∈ members, hasKey q.name)
    (hlines : List.Forall₂ (IsMemberLine p indent) members lines)
    (hread : List.Forall₂ (fun line n => ∃ o t, ReadsMember indent line n o t) lines names) :
    names = members.map (·.name) := by
  induction hlines generalizing names with
  | nil =>
    cases hread
    rfl
  | cons hline _ ih =>
    obtain ⟨hkey, hkeys⟩ := List.forall_mem_cons.mp hkeys
    obtain ⟨e, type, -, -, rfl⟩ := hline
    cases hread with
    | cons hhead hread =>
      obtain ⟨o, t, hhead⟩ := hhead
      obtain ⟨rfl, -, -⟩ := (readsMember_memberLine_iff hkey).mp hhead
      rw [ih hkeys hread, List.map_cons]

/-- **No two lines of a block are read as members of one name**, if no two members have one name
and every name has a key that stands for it. -/
theorem nodup_read_names {indent : String} {members : List Property} {lines names : List String}
    (hnames : (members.map (·.name)).Nodup) (hkeys : ∀ q ∈ members, hasKey q.name)
    (hlines : List.Forall₂ (IsMemberLine p indent) (typed members) lines)
    (hread : List.Forall₂ (fun line n => ∃ o t, ReadsMember indent line n o t) lines names) :
    names.Nodup := by
  rw [read_names_eq (fun q hq => hkeys q (List.mem_of_mem_filter hq)) hlines hread]
  exact nodup_typed_names hnames

/-- Without such keys, two members can have one line: the mark of one is the end of the name of the
other. -/
example : memberLine "    " ⟨"from?", none, false⟩ "string" =
    memberLine "    " ⟨"from", none, true⟩ "string" := by decide +kernel

end TypeCatalog.Syntax
