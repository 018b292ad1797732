import TypeCatalog.Number.Binary64
import TypeCatalog.Value.Calendar

/-!
# Value/Basic — parsed documents

A document, once its syntax has been read, is a `Value`. JSON brings forth the first seven forms,
with strings as keys; YAML brings forth all of them, and has keys of other forms too. An object
keeps its entries in the order of their first writing; `Value.insert` is the rule for a key that is
written twice, and `Value.lookup` finds what a string key stands for.
-/

namespace TypeCatalog

open TypeCatalog.Number

/-- A parsed document, or a part of one. -/
inductive Value where
  | null
  | bool (b : Bool)
  | int (n : Int)
  | float (x : Binary64)
  | string (s : String)
  | list (items : List Value)
  | object (entries : List (Value × Value))
  | day (d : Day)
  | moment (m : Moment)
  | bytes (b : List UInt8)
  | set (items : List Value)
  | pair (first second : Value)
  deriving Repr, Inhabited

namespace Value

/-- The number that a value is as a key, if it is one: a truth value counts as zero or one. -/
def asInt? : Value → Option Int
  | bool b => some (if b then 1 else 0)
  | int n => some n
  | _ => none

/-- Whether two values are the same key. Numbers are compared as numbers, whatever their form;
lists, objects and sets are never keys. -/
def sameKey : Value → Value → Bool
  | null, null => true
  | string s, string t => s == t
  | day d, day e => d == e
  | moment m, moment n => m.same n
  | bytes b, bytes c => b == c
  | float x, float y => x.same y
  | float x, w => match w.asInt? with
    | some n => x.isInt n
    | none => false
  | v, float y => match v.asInt? with
    | some n => y.isInt n
    | none => false
  | v, w => match v.asInt?, w.asInt? with
    | some m, some n => m == n
    | _, _ => false

/-- Whether a value counts as true where a truth value is asked for. -/
def isTruthy : Value → Bool
  | null => false
  | bool b => b
  | int n => n != 0
  | float x => !x.isInt 0
  | string s => s != ""
  | list items => !items.isEmpty
  | object entries => !entries.isEmpty
  | bytes b => !b.isEmpty
  | set items => !items.isEmpty
  | _ => true

/-- Adds an entry to an object. A key that is there already keeps its place and gets the new
value. -/
def insert : List (Value × Value) → Value → Value → List (Value × Value)
  | [], key, value => [(key, value)]
  | (k, v) :: rest, key, value =>
    if k.sameKey key then (k, value) :: rest else (k, v) :: insert rest key value

/-- Whether a value is a given string. -/
def isString (s : String) : Value → Bool
  | string t => t == s
  | _ => false

/-- The value under a string key. -/
def lookup (key : String) : List (Value × Value) → Option Value
  | [] => none
  | (k, v) :: rest => if k.isString key then some v else lookup key rest

theorem sameKey_string (v : Value) (s : String) : v.sameKey (string s) = v.isString s := by
  cases v <;> rfl

theorem isString_iff {v : Value} {s : String} : v.isString s ↔ v = string s := by
  cases v <;> simp [isString]

theorem mem_of_lookup {key : String} {entries : List (Value × Value)} {v : Value}
    (h : lookup key entries = some v) : (string key, v) ∈ entries := by
  induction entries with
  | nil => nomatch h
  | cons entry rest ih =>
    rw [lookup] at h
    split at h
    · next hkey =>
      cases h
      rw [← isString_iff.mp hkey]
      exact List.mem_cons_self
    · exact List.mem_cons_of_mem _ (ih h)

/-- What stands under a key is found there, if no entry after it is under the same key. -/
theorem lookup_of_mem {key : String} {entries : List (Value × Value)} {v : Value}
    (hkeys : entries.Pairwise fun e e' => e.1 = string key → e'.1 ≠ string key)
    (h : (string key, v) ∈ entries) : lookup key entries = some v := by
  induction entries with
  | nil => nomatch h
  | cons entry rest ih =>
    obtain ⟨hhead, hrest⟩ := List.pairwise_cons.mp hkeys
    rw [lookup]
    obtain rfl | h := List.mem_cons.mp h
    · rw [if_pos (isString_iff.mpr rfl)]
    · rw [if_neg fun hkey => hhead _ h (isString_iff.mp hkey) rfl, ih hrest h]

/-- What is added under a string key is found there, and nothing else is found elsewhere. -/
theorem lookup_insert (key k : String) (v : Value) (entries : List (Value × Value)) :
    lookup key (insert entries (string k) v) = if k = key then some v else lookup key entries := by
  induction entries with
  | nil => simp [insert, lookup, isString]
  | cons entry rest ih =>
    obtain ⟨k', v'⟩ := entry
    rw [insert, sameKey_string]
    by_cases hk : k'.isString k
    · obtain rfl := isString_iff.mp hk
      by_cases hkey : k = key <;> simp [lookup, isString, hkey]
    · rw [if_neg hk, lookup, lookup, ih]
      by_cases hkey : k = key
      · rw [if_pos hkey, if_neg (hkey ▸ hk), if_pos hkey]
      · rw [if_neg hkey, if_neg hkey]

/-- **Induction along what is read of a value**: the entries of an object under string keys, the
items of such an entry that is a list, and the items of a list. -/
@[elab_as_elim] theorem inductParts {motive : Value → Prop}
    (object : ∀ entries, (∀ key v, lookup key entries = some v → motive v) →
      (∀ key vs, lookup key entries = some (.list vs) → ∀ v ∈ vs, motive v) →
      motive (.object entries))
    (list : ∀ items, (∀ v ∈ items, motive v) → motive (.list items))
    (other : ∀ v, (∀ entries, v ≠ .object entries) → (∀ items, v ≠ .list items) → motive v)
    (v : Value) : motive v := by
  -- The items of a list are carried along, for the entries that are lists.
  let Deep (v : Value) : Prop := motive v ∧ ∀ vs, v = .list vs → ∀ u ∈ vs, motive u
  have leaf : ∀ v, (∀ entries, v ≠ .object entries) → (∀ items, v ≠ .list items) → Deep v :=
    fun v ho hl => ⟨other v ho hl, fun vs h => absurd h (hl vs)⟩
  have hlist : ∀ items, (∀ v ∈ items, Deep v) → Deep (.list items) := by
    intro items h
    have hitems : ∀ v ∈ items, motive v := fun v hv => (h v hv).1
    exact ⟨list items hitems, fun vs heq => Value.list.inj heq ▸ hitems⟩
  have hobject : ∀ entries : List (Value × Value), (∀ e ∈ entries, Deep e.2) →
      Deep (.object entries) := by
    intro entries h
    have hentries : ∀ key v, lookup key entries = some v → Deep v := fun key v hv =>
      h (string key, v) (mem_of_lookup hv)
    exact ⟨object entries (fun key v hv => (hentries key v hv).1)
      (fun key vs hvs => (hentries key _ hvs).2 vs rfl), fun vs h => nomatch h⟩
  refine (@Value.rec Deep (fun vs => ∀ v ∈ vs, Deep v) (fun es => ∀ e ∈ es, Deep e.2)
    (fun e => Deep e.2) (leaf _ nofun nofun) (fun _ => leaf _ nofun nofun)
    (fun _ => leaf _ nofun nofun) (fun _ => leaf _ nofun nofun) (fun _ => leaf _ nofun nofun)
    hlist hobject (fun _ => leaf _ nofun nofun) (fun _ => leaf _ nofun nofun)
    (fun _ => leaf _ nofun nofun) (fun _ _ => leaf _ nofun nofun)
    (fun _ _ _ _ => leaf _ nofun nofun) nofun (fun _ _ head tail => ?_) nofun
    (fun _ _ head tail => ?_) (fun _ _ _ second => second) v).1
  · exact List.forall_mem_cons.mpr ⟨head, tail⟩
  · exact List.forall_mem_cons.mpr ⟨head, tail⟩

end Value

end TypeCatalog
