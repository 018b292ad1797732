import TypeCatalog.Declaration.Block
import TypeCatalog.Proofs.Failure

/-!
# Proofs/Generation/Written — which expressions are written, and where

An expression stands in a definition at a path of indices (`WrittenAt`): first the index of one of
the expressions that the definition writes (`Definition.writtenTypes`), then the index of one of the
parts that an expression writes (`TypeExpr.parts`), and so on.  Not everything is written:

* of a reference to an ancestor with a single generic, the generic is left out, unless the ancestor
  is the dictionary base;
* a single ancestor that is the response base is left out, with its generics;
* a member without a type has nothing to write.

The types of some expressions cannot be written exactly if a value that is no expression stands at
some path, and the value at the least path is the one that is reported
(`failure?_trees_eq_some`).
-/

namespace TypeCatalog

open Failure

/-! ## Paths -/

/-- The parts of an expression that are written, in their order. -/
def TypeExpr.parts (p : Profile) : TypeExpr → List TypeExpr
  | reference _ generics => generics
  | implementation n generics =>
    if n = p.dictionaryBase ∨ 1 < generics.length then generics else []
  | array element => [element]
  | dictionary key value => [key, value]
  | singleKey value => [value]
  | union items => items
  | unknown _ => []

/-- What holds of an expression if it holds of its written parts holds of every expression. -/
@[elab_as_elim] theorem TypeExpr.inductParts {motive : TypeExpr → Prop} (p : Profile)
    (step : ∀ e, (∀ part ∈ e.parts p, motive part) → motive e) (e : TypeExpr) : motive e := by
  induction e using TypeExpr.induct with
  | reference n gs ih => exact step _ ih
  | implementation n gs ih =>
    refine step _ fun part h => ?_
    rw [parts] at h
    split at h
    · exact ih part h
    · cases h
  | array e ih => exact step _ (List.forall_mem_singleton.mpr ih)
  | dictionary k v ihk ihv =>
    exact step _ (List.forall_mem_cons.mpr ⟨ihk, List.forall_mem_singleton.mpr ihv⟩)
  | singleKey v ih => exact step _ (List.forall_mem_singleton.mpr ih)
  | union items ih => exact step _ ih
  | unknown kind => exact step _ nofun

/-- An expression stands at a path: as an item of a list, or in a written part of one. -/
inductive WrittenAt (p : Profile) : List TypeExpr → List Nat → TypeExpr → Prop
  | item {es : List TypeExpr} {i : Nat} {e : TypeExpr} : es[i]? = some e → WrittenAt p es [i] e
  | part {es : List TypeExpr} {i : Nat} {e part : TypeExpr} {path : List Nat} :
      es[i]? = some e → WrittenAt p (e.parts p) path part → WrittenAt p es (i :: path) part

namespace WrittenAt

variable {p : Profile} {es : List TypeExpr} {e : TypeExpr} {path : List Nat}

theorem not_nil_path : ¬ WrittenAt p es [] e := nofun

/-- Where a path leads. -/
theorem cons_iff {i : Nat} {x : TypeExpr} : WrittenAt p es (i :: path) x ↔
    ∃ e, es[i]? = some e ∧ (path = [] ∧ x = e ∨ WrittenAt p (e.parts p) path x) := by
  constructor
  · rintro (h | ⟨h, hpart⟩)
    · exact ⟨x, h, .inl ⟨rfl, rfl⟩⟩
    · exact ⟨_, h, .inr hpart⟩
  · rintro ⟨e, h, ⟨rfl, rfl⟩ | hpart⟩
    · exact .item h
    · exact .part h hpart

theorem not_nil : ¬ WrittenAt p [] path e := by
  rintro (h | ⟨h, _⟩) <;> cases h

/-- What stands in a list stands in its head, or in its tail under the index before. -/
theorem cons_list_iff {head x : TypeExpr} : WrittenAt p (head :: es) path x ↔
    WrittenAt p [head] path x ∨
      ∃ i path', path = (i + 1) :: path' ∧ WrittenAt p es (i :: path') x := by
  cases path with
  | nil => simp [not_nil_path]
  | cons i path =>
    rw [cons_iff, cons_iff]
    cases i with
    | zero => simp
    | succ i => simp [cons_iff]

/-- Below an expression stands what stands in its parts. -/
theorem singleton_iff {x : TypeExpr} : WrittenAt p [e] path x ↔
    ∃ path', path = 0 :: path' ∧ (path' = [] ∧ x = e ∨ WrittenAt p (e.parts p) path' x) := by
  cases path with
  | nil => simp [not_nil_path]
  | cons i path =>
    rw [cons_iff]
    cases i with
    | zero => simp
    | succ i => simp

/-- A path leads to one expression. -/
theorem unique {x y : TypeExpr} (hx : WrittenAt p es path x) (hy : WrittenAt p es path y) :
    x = y := by
  induction hx with
  | item h =>
    obtain ⟨e, he, ⟨-, rfl⟩ | hpart⟩ := cons_iff.mp hy
    · exact Option.some.inj (h.symm.trans he)
    · exact absurd hpart not_nil_path
  | part h hpart ih =>
    obtain ⟨e, he, ⟨rfl, -⟩ | hpart'⟩ := cons_iff.mp hy
    · exact absurd hpart not_nil_path
    · exact ih (Option.some.inj (h.symm.trans he) ▸ hpart')

/-- What is written in some expressions is written in more of them. -/
theorem mono {es' : List TypeExpr} {x : TypeExpr} (h : WrittenAt p es path x) (hsubset : es ⊆ es') :
    ∃ path', WrittenAt p es' path' x := by
  cases h with
  | item he =>
    obtain ⟨i, hi⟩ := List.mem_iff_getElem?.mp (hsubset (List.mem_of_getElem? he))
    exact ⟨[i], .item hi⟩
  | part he hpart =>
    obtain ⟨i, hi⟩ := List.mem_iff_getElem?.mp (hsubset (List.mem_of_getElem? he))
    exact ⟨i :: _, .part hi hpart⟩

end WrittenAt

/-! ## The types that a definition writes -/

/-- Whether the only ancestor is the response base. -/
def isSoleBase (p : Profile) : List TypeExpr → Bool
  | [.reference n _] => n == p.responseBase
  | [.implementation n _] => n == p.responseBase
  | _ => false

theorem isSoleBase_iff {p : Profile} {ancestors : List TypeExpr} : isSoleBase p ancestors ↔
    ∃ gs, ancestors = [.reference p.responseBase gs] ∨
      ancestors = [.implementation p.responseBase gs] := by
  match ancestors with
  | [] => simp [isSoleBase]
  | [e] => cases e <;> simp [isSoleBase]
  | e :: _ :: _ => cases e <;> simp [isSoleBase]

/-- The ancestors that are written. -/
def writtenAncestors (p : Profile) (ancestors : List TypeExpr) : List TypeExpr :=
  if isSoleBase p ancestors then [] else ancestors

/-- The types of members. -/
def memberTypes (members : List Property) : List TypeExpr := members.filterMap (·.type)

/-- The types of a body. -/
def bodyTypes : Option Body → List TypeExpr
  | none => []
  | some (.properties members) => memberTypes members
  | some (.type e) => [e]

/-- The types that a definition writes, in their order. -/
def Definition.writtenTypes (p : Profile) : Definition → List TypeExpr
  | stringAlias _ => []
  | numberAlias _ => []
  | unionAlias _ wraps => [wraps]
  | enumeration _ _ => []
  | interface header properties => writtenAncestors p header.ancestors ++ memberTypes properties
  | request header path query body =>
    writtenAncestors p header.ancestors ++ memberTypes (path.getD []) ++
      memberTypes (query.getD []) ++ bodyTypes body
  | unknown _ _ => []

/-! ## The first value that is no expression -/

/-- At a path stands a value that is no expression, and at no smaller path does one. -/
def FirstUnknown (p : Profile) (es : List TypeExpr) (path : List Nat) (kind : String) : Prop :=
  WrittenAt p es path (.unknown kind) ∧
    ∀ path' kind', WrittenAt p es path' (.unknown kind') → path.le path'

/-- A failure tells the first value that is no expression; without one there is no such value. -/
def Reports (p : Profile) (es : List TypeExpr) : Option GenerationError → Prop
  | none => ∀ path kind, ¬ WrittenAt p es path (.unknown kind)
  | some e => ∃ path kind, FirstUnknown p es path kind ∧ e = .unknownType kind

variable {p : Profile}

/-! ## Failures of several types -/

theorem failure?_trees_cons (e : TypeExpr) (es : List TypeExpr) :
    failure? (TypeExpr.trees p (e :: es)) =
      (failure? (e.tree p)).or (failure? (TypeExpr.trees p es)) := by
  rw [TypeExpr.trees]
  cases e.tree p <;> cases TypeExpr.trees p es <;> rfl

theorem failure?_trees_append (es es' : List TypeExpr) :
    failure? (TypeExpr.trees p (es ++ es')) =
      (failure? (TypeExpr.trees p es)).or (failure? (TypeExpr.trees p es')) := by
  induction es with
  | nil => rfl
  | cons e es ih =>
    rw [List.cons_append, failure?_trees_cons, failure?_trees_cons, ih, Option.or_assoc]

theorem failure?_trees_singleton (e : TypeExpr) :
    failure? (TypeExpr.trees p [e]) = failure? (e.tree p) := by
  rw [failure?_trees_cons, TypeExpr.trees, failure?, Option.or_none]

/-- An expression is written if its parts are. -/
theorem TypeExpr.failure?_tree {e : TypeExpr} (h : ∀ kind, e ≠ .unknown kind) :
    failure? (e.tree p) = failure? (TypeExpr.trees p (e.parts p)) := by
  cases e with
  | reference n gs =>
    cases gs with
    | nil => rfl
    | cons g gs => exact failure?_map _ _
  | implementation n gs =>
    rw [tree, parts]
    by_cases hbase : n = p.dictionaryBase
    · rw [if_pos hbase, if_pos (.inl hbase)]
      exact failure?_map _ _
    · by_cases hlen : 1 < gs.length
      · rw [if_neg hbase, if_pos hlen, if_pos (.inr hlen)]
        exact failure?_map _ _
      · rw [if_neg hbase, if_neg hlen, if_neg (by simp [hbase, hlen])]
        rfl
  | array e =>
    rw [tree, parts, trees, trees]
    cases e.tree p <;> rfl
  | dictionary k v =>
    rw [tree, parts, trees, trees, trees]
    cases k.tree p <;> cases v.tree p <;> rfl
  | singleKey v =>
    rw [tree, parts, trees, trees]
    cases v.tree p <;> rfl
  | union items => exact failure?_map _ _
  | unknown kind => exact absurd rfl (h kind)

theorem Reports.unknown (kind : String) :
    Reports p [.unknown kind] (some (.unknownType kind)) := by
  refine ⟨[0], kind, ⟨.item rfl, fun path' kind' h => ?_⟩, rfl⟩
  obtain ⟨path, rfl, ⟨rfl, -⟩ | hpart⟩ := WrittenAt.singleton_iff.mp h
  · exact List.le_refl _
  · exact absurd hpart WrittenAt.not_nil

/-- What is reported of the parts of an expression is reported of the expression. -/
theorem Reports.of_parts {e : TypeExpr} {o : Option GenerationError}
    (he : ∀ kind, e ≠ .unknown kind) (h : Reports p (e.parts p) o) : Reports p [e] o := by
  have below {path : List Nat} {kind : String} (hat : WrittenAt p [e] path (.unknown kind)) :
      ∃ path', path = 0 :: path' ∧ WrittenAt p (e.parts p) path' (.unknown kind) := by
    obtain ⟨path', rfl, ⟨-, hkind⟩ | hpart⟩ := WrittenAt.singleton_iff.mp hat
    · exact absurd hkind.symm (he kind)
    · exact ⟨path', rfl, hpart⟩
  cases o with
  | none =>
    intro path kind hat
    obtain ⟨path', -, hpart⟩ := below hat
    exact h path' kind hpart
  | some err =>
    obtain ⟨path, kind, ⟨hat, hleast⟩, rfl⟩ := h
    refine ⟨0 :: path, kind, ⟨.part rfl hat, fun path₁ kind₁ hat₁ => ?_⟩, rfl⟩
    obtain ⟨path', rfl, hpart⟩ := below hat₁
    exact List.cons_le_cons_iff.mpr (.inr ⟨rfl, hleast path' kind₁ hpart⟩)

/-- The head of a list is reported before its tail. -/
theorem Reports.cons {e : TypeExpr} {es : List TypeExpr} {o o' : Option GenerationError}
    (he : Reports p [e] o) (hes : Reports p es o') : Reports p (e :: es) (o.or o') := by
  cases o with
  | some err =>
    obtain ⟨path, kind, ⟨hat, hleast⟩, rfl⟩ := he
    refine ⟨path, kind, ⟨WrittenAt.cons_list_iff.mpr (.inl hat), fun path₁ kind₁ hat₁ => ?_⟩, rfl⟩
    obtain hhead | ⟨i, path', rfl, -⟩ := WrittenAt.cons_list_iff.mp hat₁
    · exact hleast path₁ kind₁ hhead
    · obtain ⟨path, rfl, -⟩ := WrittenAt.singleton_iff.mp hat
      exact List.cons_le_cons_iff.mpr (.inl i.succ_pos)
  | none =>
    cases o' with
    | none =>
      intro path kind hat
      obtain hhead | ⟨i, path', -, htail⟩ := WrittenAt.cons_list_iff.mp hat
      · exact he path kind hhead
      · exact hes _ kind htail
    | some err =>
      obtain ⟨path, kind, ⟨hat, hleast⟩, rfl⟩ := hes
      obtain ⟨i, path, rfl⟩ := List.exists_cons_of_ne_nil fun hnil : path = [] =>
        WrittenAt.not_nil_path (hnil ▸ hat)
      refine ⟨(i + 1) :: path, kind, ⟨WrittenAt.cons_list_iff.mpr (.inr ⟨i, path, rfl, hat⟩),
        fun path₁ kind₁ hat₁ => ?_⟩, rfl⟩
      obtain hhead | ⟨i₁, path', rfl, htail⟩ := WrittenAt.cons_list_iff.mp hat₁
      · exact absurd hhead (he path₁ kind₁)
      -- In the longer list both paths start one item later, which keeps their order.
      · have hle := List.cons_le_cons_iff.mp (hleast _ kind₁ htail)
        exact List.cons_le_cons_iff.mpr (hle.imp Nat.succ_lt_succ (And.imp_left (congrArg _)))

theorem reports_trees_of_mem {es : List TypeExpr}
    (h : ∀ e ∈ es, Reports p [e] (failure? (e.tree p))) :
    Reports p es (failure? (TypeExpr.trees p es)) := by
  induction es with
  | nil => exact fun path kind => WrittenAt.not_nil
  | cons e es ih =>
    obtain ⟨he, hes⟩ := List.forall_mem_cons.mp h
    rw [failure?_trees_cons]
    exact he.cons (ih hes)

theorem reports_tree (e : TypeExpr) : Reports p [e] (failure? (e.tree p)) := by
  induction e using TypeExpr.inductParts p with
  | step e ih =>
    by_cases hunknown : ∃ kind, e = .unknown kind
    · obtain ⟨kind, rfl⟩ := hunknown
      exact .unknown kind
    · have hknown : ∀ kind, e ≠ .unknown kind := fun kind h => hunknown ⟨kind, h⟩
      rw [TypeExpr.failure?_tree hknown]
      exact .of_parts hknown (reports_trees_of_mem ih)

/-- **What the written types of some expressions fail with is the first value among them that is no
expression.** -/
theorem reports_trees (es : List TypeExpr) : Reports p es (failure? (TypeExpr.trees p es)) :=
  reports_trees_of_mem fun e _ => reports_tree e

theorem FirstUnknown.unique {es : List TypeExpr} {path path' : List Nat} {kind kind' : String}
    (h : FirstUnknown p es path kind) (h' : FirstUnknown p es path' kind') : kind = kind' := by
  obtain rfl : path = path' := List.le_antisymm (h.2 _ _ h'.1) (h'.2 _ _ h.1)
  exact TypeExpr.unknown.inj (h.1.unique h'.1)

theorem failure?_trees_eq_some {es : List TypeExpr} {e : GenerationError} :
    failure? (TypeExpr.trees p es) = some e ↔
      ∃ path kind, FirstUnknown p es path kind ∧ e = .unknownType kind := by
  have hreports := reports_trees (p := p) es
  cases hfail : failure? (TypeExpr.trees p es) with
  | none =>
    rw [hfail] at hreports
    exact ⟨nofun, fun ⟨path, kind, hfirst, _⟩ => absurd hfirst.1 (hreports path kind)⟩
  | some err =>
    rw [hfail] at hreports
    obtain ⟨path, kind, hfirst, rfl⟩ := hreports
    constructor
    · rintro ⟨⟩
      exact ⟨path, kind, hfirst, rfl⟩
    · rintro ⟨path', kind', hfirst', rfl⟩
      rw [hfirst.unique hfirst']

end TypeCatalog
