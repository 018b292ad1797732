import TypeCatalog.Proofs.Syntax.Identifier
import TypeCatalog.Proofs.WrittenType.Tokens

/-!
# Proofs/Syntax/Grammar — the language of the generated code

    file         ::=  'declare namespace' name '{' declarations '}'  'export default' name
    declaration  ::=  'export type' name '=' ( type | literal ('|' literal)* )
                   |  'export enum' name '{' ( key '=' string ',' )* '}'
                   |  comment?  'export interface' name generics? heritage? '{' members '}'
    generics     ::=  '<' name (',' name)* '>'
    heritage     ::=  'extends' head (',' head)*
    member       ::=  key '?'? ':' type  |  'body?:' '{' ( key '?'? ':' type )* '}'

The grammar is one of lines: a declaration is a list of lines (`IsDeclaration`), and declarations
stand with blank lines between them (`IsFile`).  Inside a line, types are the types of
`WrittenType/Grammar`, a head is a name with or without arguments, and every name is an identifier.
-/

namespace TypeCatalog.Syntax

open TypeCatalog.Layout TypeToken TypeTree

/-! ## Types and literals -/

/-- Every name in a text is an identifier. -/
def NamesIdentify (text : String) : Prop :=
  ∀ n, .name n ∈ scan [] text.toList → isIdentifier n

/-- A type: one or more alternatives. -/
def IsType (text : String) : Prop :=
  NamesIdentify text ∧ ∃ as, Alternatives (scan [] text.toList) as

/-- One or more heads. -/
def IsHeads (text : String) : Prop :=
  NamesIdentify text ∧ ∃ args, Arguments (scan [] text.toList) args ∧ ∀ a ∈ args, a.IsHead

/-- Whether a text can stand between quotes as it is. -/
def isQuotable (text : String) : Bool :=
  text.toList.all fun c => c != '"' && c != '\\' && c != '\n' && c != '\r'

/-- A literal type: a truth value, or a text between quotes. -/
inductive IsLiteral : String → Prop
  | true : IsLiteral "true"
  | false : IsLiteral "false"
  | quoted {text : String} : isQuotable text → IsLiteral ("\"" ++ text ++ "\"")

/-- What an alias stands for: a type, or one or more literals. -/
inductive IsAliased : String → Prop
  | type {text : String} : IsType text → IsAliased text
  | literals {ls : List String} : ls ≠ [] → (∀ l ∈ ls, IsLiteral l) →
      IsAliased (" | ".intercalate ls)

/-! ## Lines -/

/-- The generic parameters of an interface: none, or a list between brackets. -/
inductive IsGenerics : String → Prop
  | none : IsGenerics ""
  | list {names : List String} : names ≠ [] → (∀ n ∈ names, isIdentifier n) →
      IsGenerics ("<" ++ ", ".intercalate names ++ ">")

/-- What an interface extends: nothing, or heads. -/
inductive IsHeritage : String → Prop
  | none : IsHeritage ""
  | heads {text : String} : IsHeads text → IsHeritage (" extends " ++ text)

/-- The first line of an interface. -/
inductive IsHeader : String → Prop
  | mk {name generics heritage : String} : isIdentifier name → IsGenerics generics →
      IsHeritage heritage →
      IsHeader ("  export interface " ++ name ++ generics ++ heritage ++ " \x7b")

/-- The line of a member. -/
inductive IsMember (indent : String) : String → Prop
  | mk {key type : String} (optional : Bool) : isIdentifier key → IsType type →
      IsMember indent (indent ++ key ++ (if optional then "?" else "") ++ ": " ++ type)

/-- The line of a member of an enumeration. -/
inductive IsConstant : String → Prop
  | mk {key text : String} : isIdentifier key → isQuotable text →
      IsConstant ("    " ++ key ++ " = \"" ++ text ++ "\",")

/-- A comment of three lines, or none. -/
inductive IsComment : List String → Prop
  | none : IsComment []
  | lines {text : String} : OneLine text → ¬ "*/".toList <:+: text.toList →
      IsComment ["  /**", "   * " ++ text, "   */"]

/-- The lines of the members of an interface. -/
inductive IsMembers : List String → Prop
  | nil : IsMembers []
  | member {line : String} {rest : List String} : IsMember "    " line → IsMembers rest →
      IsMembers (line :: rest)
  | body {lines rest : List String} : (∀ l ∈ lines, IsMember "      " l) → IsMembers rest →
      IsMembers (["    body?: \x7b"] ++ lines ++ ["    \x7d"] ++ rest)

/-! ## Declarations and files -/

/-- The lines of a declaration. -/
inductive IsDeclaration : List String → Prop
  | typeAlias {name text : String} : isIdentifier name → IsAliased text →
      IsDeclaration ["  export type " ++ name ++ " = " ++ text]
  | enumeration {name : String} {lines : List String} : isIdentifier name →
      (∀ l ∈ lines, IsConstant l) →
      IsDeclaration (["  export enum " ++ name ++ " \x7b"] ++ lines ++ ["  \x7d"])
  | interface {comment lines : List String} {header : String} : IsComment comment →
      IsHeader header → IsMembers lines →
      IsDeclaration (comment ++ [header] ++ lines ++ ["  \x7d"])

/-- **A text is a file of the language.** -/
inductive IsFile : String → Prop
  | mk {name : String} {declarations : List (List String)} : isIdentifier name →
      (∀ lines ∈ declarations, IsDeclaration lines) →
      IsFile ("declare namespace " ++ name ++ " \x7b\n" ++
        "\n\n".intercalate (declarations.map ("\n".intercalate ·)) ++
        "\n\x7d\n\nexport default " ++ name)

/-! ## Every declaration is a block -/

/-- A character of a name stands in one of the names that a text is cut into. -/
theorem exists_name_of_mem {c : Char} (hc : isNameChar c) (pending : List Char) {text : List Char}
    (h : c ∈ pending ++ text) : ∃ n, .name n ∈ scan pending text ∧ c ∈ n.toList := by
  have hnamed {cs : List Char} (h : c ∈ cs) : ∃ n, .name n ∈ named cs ∧ c ∈ n.toList := by
    cases cs with
    | nil => cases h
    | cons d cs => exact ⟨_, List.mem_singleton_self _, by rwa [String.toList_ofList]⟩
  induction text generalizing pending with
  | nil => exact hnamed (by simpa using h)
  | cons d text ih =>
    rw [scan]
    split
    · exact ih _ (by simpa using h)
    · rename_i hd
      obtain h | h | h : c ∈ pending ∨ c = d ∨ c ∈ text := by simpa using h
      · obtain ⟨n, hn, hmem⟩ := hnamed h
        exact ⟨n, by simp [hn], hmem⟩
      · exact absurd (h ▸ hc) hd
      · obtain ⟨n, hn, hmem⟩ := ih [] h
        exact ⟨n, by simp [hn], hmem⟩

/-- A text of identifiers holds no other characters but marks and spaces. -/
theorem NamesIdentify.not_mem {text : String} (h : NamesIdentify text) {c : Char}
    (hc : isNameChar c) (hother : isIdentifierChar c = false) : c ∉ text.toList := by
  intro hmem
  obtain ⟨n, hn, hcn⟩ := exists_name_of_mem hc [] hmem
  exact Bool.false_ne_true (hother.symm.trans (isIdentifierChar_of_mem (h n hn) hcn))

theorem NamesIdentify.oneLine {text : String} (h : NamesIdentify text) : OneLine text :=
  h.not_mem (by decide) (by decide)

end TypeCatalog.Syntax
