import TypeCatalog.Catalog.Place
import TypeCatalog.Proofs.Document.Grammar
import TypeCatalog.Proofs.Related

/-!
# Proofs/Spelling/Tree — documents with the spelling of their scalars

A reader forgets how a number or a truth value was written.  A `Spelled` document keeps the token
beside the value, and `Spelled.erase` is what the reader leaves of it.  Where steps lead to a token
in the document, they lead to its value in the value (`follow?_erase`); so **a member of an
enumeration has the representation of the value whose token stands there**
(`isRepresentation_of_follow?`).
-/

namespace TypeCatalog

/-- A document that knows how its scalars are spelled. -/
inductive Spelled where
  /-- A scalar that stands there without quotes, by its token. -/
  | scalar (token : String) (v : Value)
  /-- What is not looked into. -/
  | other (v : Value)
  | list (items : List Spelled)
  | object (entries : List (Value × Spelled))

namespace Spelled

mutual
/-- The value of a document. -/
def erase : Spelled → Value
  | scalar _ v => v
  | other v => v
  | list items => .list (eraseAll items)
  | object entries => .object (eraseEntries entries)

/-- The values of the items of a list. -/
def eraseAll : List Spelled → List Value
  | [] => []
  | s :: rest => erase s :: eraseAll rest

/-- The entries of an object with their values. -/
def eraseEntries : List (Value × Spelled) → List (Value × Value)
  | [] => []
  | (k, s) :: rest => (k, erase s) :: eraseEntries rest
end

/-- Adds an entry to an object, as `Value.insert` does. -/
def insert : List (Value × Spelled) → Value → Spelled → List (Value × Spelled)
  | [], key, s => [(key, s)]
  | (k, t) :: rest, key, s => if k.sameKey key then (k, s) :: rest else (k, t) :: insert rest key s

/-- What stands under a string key. -/
def lookup (key : String) : List (Value × Spelled) → Option Spelled
  | [] => none
  | (k, s) :: rest => if k.isString key then some s else lookup key rest

/-- The part that steps lead to. -/
def follow? : List Step → Spelled → Option Spelled
  | [], s => some s
  | .key name :: rest, object entries => (lookup name entries).bind (follow? rest)
  | .index i :: rest, list items => items[i]?.bind (follow? rest)
  | _ :: _, _ => none

theorem eraseAll_eq_map (items : List Spelled) : eraseAll items = items.map erase := by
  induction items with
  | nil => rfl
  | cons s rest ih => rw [eraseAll, ih, List.map_cons]

theorem eraseEntries_eq_map (entries : List (Value × Spelled)) :
    eraseEntries entries = entries.map fun (k, s) => (k, s.erase) := by
  induction entries with
  | nil => rfl
  | cons entry rest ih =>
    rw [eraseEntries, ih]
    rfl

theorem eraseEntries_insert (entries : List (Value × Spelled)) (key : Value) (s : Spelled) :
    eraseEntries (insert entries key s) = Value.insert (eraseEntries entries) key s.erase := by
  induction entries with
  | nil => rfl
  | cons entry rest ih =>
    obtain ⟨k, t⟩ := entry
    rw [insert, eraseEntries, Value.insert]
    split
    · rfl
    · rw [eraseEntries, ih]

theorem lookup_eraseEntries (key : String) (entries : List (Value × Spelled)) :
    Value.lookup key (eraseEntries entries) = (lookup key entries).map erase := by
  induction entries with
  | nil => rfl
  | cons entry rest ih =>
    obtain ⟨k, s⟩ := entry
    rw [eraseEntries, Value.lookup, lookup, ih]
    split <;> rfl

/-- Steps lead to the value of the part that they lead to. -/
theorem follow?_erase {steps : List Step} {s t : Spelled} (h : s.follow? steps = some t) :
    Place.follow? steps s.erase = some t.erase := by
  induction steps generalizing s with
  | nil => exact congrArg (Option.map erase) h
  | cons step rest ih =>
    cases step with
    | key name =>
      cases s with
      | object entries =>
        obtain ⟨u, hu, hfollow⟩ := Option.bind_eq_some_iff.mp h
        rw [erase, Place.follow?, lookup_eraseEntries, hu]
        exact ih hfollow
      | _ => cases h
    | index i =>
      cases s with
      | list items =>
        obtain ⟨u, hu, hfollow⟩ := Option.bind_eq_some_iff.mp h
        rw [erase, Place.follow?, eraseAll_eq_map, List.getElem?_map, hu]
        exact ih hfollow
      | _ => cases h

/-- Something holds of every token and its value. -/
inductive Holds (P : String → Value → Prop) : Spelled → Prop
  | scalar {token : String} {v : Value} : P token v → Holds P (.scalar token v)
  | other (v : Value) : Holds P (.other v)
  | list {items : List Spelled} : (∀ s ∈ items, Holds P s) → Holds P (.list items)
  | object {entries : List (Value × Spelled)} : (∀ e ∈ entries, Holds P e.2) →
      Holds P (.object entries)

variable {P Q : String → Value → Prop}

theorem Holds.mono {s : Spelled} (h : s.Holds P) (hPQ : ∀ token v, P token v → Q token v) :
    s.Holds Q := by
  induction h with
  | scalar h => exact .scalar (hPQ _ _ h)
  | other v => exact .other v
  | list _ ih => exact .list ih
  | object _ ih => exact .object ih

theorem exists_mem_of_lookup {key : String} {entries : List (Value × Spelled)} {s : Spelled}
    (h : lookup key entries = some s) : ∃ k, (k, s) ∈ entries := by
  induction entries with
  | nil => nomatch h
  | cons entry rest ih =>
    rw [lookup] at h
    split at h
    · cases h
      exact ⟨_, List.mem_cons_self⟩
    · obtain ⟨k, hk⟩ := ih h
      exact ⟨k, List.mem_cons_of_mem _ hk⟩

theorem Holds.follow? {steps : List Step} {s t : Spelled} (h : s.Holds P)
    (hfollow : s.follow? steps = some t) : t.Holds P := by
  induction steps generalizing s with
  | nil =>
    cases hfollow
    exact h
  | cons step rest ih =>
    cases step with
    | key name =>
      cases h with
      | object hentries =>
        obtain ⟨u, hu, hfollow⟩ := Option.bind_eq_some_iff.mp hfollow
        obtain ⟨k, hk⟩ := exists_mem_of_lookup hu
        exact ih (hentries _ hk) hfollow
      | _ => cases hfollow
    | index i =>
      cases h with
      | list hitems =>
        obtain ⟨u, hu, hfollow⟩ := Option.bind_eq_some_iff.mp hfollow
        exact ih (hitems u (List.mem_of_getElem? hu)) hfollow
      | _ => cases hfollow

theorem forall_mem_insert {p : Spelled → Prop} {entries : List (Value × Spelled)} {key : Value}
    {s : Spelled} (h : ∀ e ∈ entries, p e.2) (hs : p s) : ∀ e ∈ insert entries key s, p e.2 := by
  induction entries with
  | nil => exact List.forall_mem_singleton.mpr hs
  | cons entry rest ih =>
    obtain ⟨hentry, hrest⟩ := List.forall_mem_cons.mp h
    rw [insert]
    split
    · exact List.forall_mem_cons.mpr ⟨hs, hrest⟩
    · exact List.forall_mem_cons.mpr ⟨hentry, ih hrest⟩

end Spelled

namespace Document

open Value

/-- The steps to the representation of a member of an enumeration. -/
def toRepresentation (i j : ℕ) : List Step :=
  [.key "types", .index i, .key "members", .index j, .key "stringRepresentation"]

/-- **What stands at the representation of a member is what the member is represented by.** -/
theorem isRepresentation_of_follow? {entries : List (Value × Value)} {catalog : Catalog}
    (h : IsCatalog entries catalog) {i j : ℕ} {name : String} {members : List Member} {m : Member}
    (hdefinition : catalog[i]? = some (.enumeration name members)) (hmember : members[j]? = some m)
    {v : Value} (hv : Place.follow? (toRepresentation i j) (.object entries) = some v) :
    IsRepresentation v m.representation := by
  obtain ⟨vs, hvs, hdefinitions⟩ := h
  obtain ⟨w, hw, hfollow⟩ := Option.bind_eq_some_iff.mp hv
  cases hvs.symm.trans hw
  obtain ⟨d, hd, hfollow⟩ := Option.bind_eq_some_iff.mp hfollow
  cases Related.rel_of_getElem? hdefinitions hd hdefinition with
  | enumeration _ _ hmembers =>
    obtain ⟨w, hw, hfollow⟩ := Option.bind_eq_some_iff.mp hfollow
    obtain ⟨us, hus, hmembers⟩ := hmembers
    obtain rfl : w = .list us := by
      rw [listUnder, hw] at hus
      exact hus
    obtain ⟨u, hu, hfollow⟩ := Option.bind_eq_some_iff.mp hfollow
    obtain ⟨es, rfl, -, hrepresentation⟩ := Related.rel_of_getElem? hmembers hu hmember
    obtain ⟨w, hw, hfollow⟩ := Option.bind_eq_some_iff.mp hfollow
    cases hfollow
    rw [hw] at hrepresentation
    exact hrepresentation

end Document

end TypeCatalog
