import TypeCatalog.Proofs.Related
import TypeCatalog.Proofs.WrittenType.Grammar

/-!
# Proofs/WrittenType/ReadBack — a written type is read back, arrays of unions apart

`TypeExpr.meaning` is the type that an expression stands for: an array of what its element means, a
record for a dictionary, the alternatives of its items for a union.  For a legible expression
(`TypeExpr.isLegible`) the text can be read in exactly one way, and what is read is the meaning if
and only if no array is written around a union of two or more alternatives
(`TypeExpr.bindsArrays`): nothing stands around such a union, so the array suffix goes to its last
alternative alone.
-/

namespace TypeCatalog

open TypeToken

/-! ## What an expression means -/

/-- The alternatives of a type. -/
def TypeTree.alternatives : TypeTree → List TypeTree
  | union ts => ts
  | t => [t]

namespace TypeExpr

mutual
/-- The type that an expression stands for, with unions inside unions taken apart. -/
def meaning (p : Profile) : TypeExpr → TypeTree
  | reference n [] => .name n
  | reference n (g :: gs) => .apply n (meanings p (g :: gs))
  | implementation n gs =>
    if n = p.dictionaryBase then .apply "Record" (meanings p gs)
    else if 1 < gs.length then .apply n (meanings p gs)
    else .name n
  | array element => .array (element.meaning p)
  | dictionary key value => .apply "Record" [key.meaning p, value.meaning p]
  | singleKey value => .apply "Record" [.name "string", value.meaning p]
  | union items => .ofAlternatives ((meanings p items).flatMap TypeTree.alternatives)
  | unknown kind => .name kind

/-- The types that expressions stand for. -/
def meanings (p : Profile) : List TypeExpr → List TypeTree
  | [] => []
  | e :: rest => e.meaning p :: meanings p rest
end

mutual
/-- Whether all names of an expression are names, its unions have items, and its references to the
dictionary base have generics. -/
def isLegible (p : Profile) : TypeExpr → Bool
  | reference n gs => isName n && areLegible p gs
  | implementation n gs => isName n && areLegible p gs && (n != p.dictionaryBase || !gs.isEmpty)
  | array element => element.isLegible p
  | dictionary key value => key.isLegible p && value.isLegible p
  | singleKey value => value.isLegible p
  | union items => !items.isEmpty && areLegible p items
  | unknown _ => false

def areLegible (p : Profile) : List TypeExpr → Bool
  | [] => true
  | e :: rest => e.isLegible p && areLegible p rest
end

mutual
/-- Whether no array that is written has a union of two or more alternatives as its element.  The
generics that are left out of the text do not count. -/
def bindsArrays (p : Profile) : TypeExpr → Bool
  | reference _ gs => bindAllArrays p gs
  | implementation n gs =>
    if n = p.dictionaryBase ∨ 1 < gs.length then bindAllArrays p gs else true
  | array element => (element.meaning p).alternatives.length == 1 && element.bindsArrays p
  | dictionary key value => key.bindsArrays p && value.bindsArrays p
  | singleKey value => value.bindsArrays p
  | union items => bindAllArrays p items
  | unknown _ => true

def bindAllArrays (p : Profile) : List TypeExpr → Bool
  | [] => true
  | e :: rest => e.bindsArrays p && bindAllArrays p rest
end

theorem areLegible_iff {p : Profile} {es : List TypeExpr} :
    areLegible p es ↔ ∀ e ∈ es, e.isLegible p := by
  induction es with
  | nil => simp [areLegible]
  | cons e rest ih => rw [areLegible, Bool.and_eq_true, ih, List.forall_mem_cons]

end TypeExpr

namespace TypeTree

/-! ## Alternatives

A list of alternatives is *flat* if there is one and none is itself a union: then it can be told
from the type that it makes. -/

/-- At least one alternative, and no union among them. -/
def Flat (as : List TypeTree) : Prop := as ≠ [] ∧ ∀ a ∈ as, ∀ ts, a ≠ union ts

theorem Flat.singleton {t : TypeTree} (h : ∀ ts, t ≠ union ts) : Flat [t] :=
  ⟨List.cons_ne_nil _ _, List.forall_mem_singleton.mpr h⟩

/-- The alternatives of the type that flat ones make are these again. -/
theorem Flat.alternatives_eq {as : List TypeTree} (h : Flat as) :
    (ofAlternatives as).alternatives = as := by
  match as, h with
  | [], h => exact absurd rfl h.1
  | [t], h =>
    have := h.2 t (List.mem_singleton.mpr rfl)
    cases t with
    | union ts => exact absurd rfl (this ts)
    | _ => rfl
  | _ :: _ :: _, _ => rfl

/-- Flat alternatives can be told from the type that they make. -/
theorem ofAlternatives_inj {as bs : List TypeTree} (ha : Flat as) (hb : Flat bs) :
    ofAlternatives as = ofAlternatives bs ↔ as = bs := by
  refine ⟨fun h => ?_, congrArg _⟩
  rw [← ha.alternatives_eq, h, hb.alternatives_eq]

theorem Flat.flatten {ass : List (List TypeTree)} (hne : ass ≠ []) (h : ∀ as ∈ ass, Flat as) :
    Flat ass.flatten := by
  constructor
  · obtain ⟨as, rest, rfl⟩ := List.exists_cons_of_ne_nil hne
    have : as ≠ [] := (h as List.mem_cons_self).1
    simp [this]
  · intro a ha
    obtain ⟨as, has, hmem⟩ := List.mem_flatten.mp ha
    exact (h as has).2 a hmem

end TypeTree

/-- Lists that are no shorter one by one are equal one by one if they are equal end to end. -/
theorem flatMap_inj_of_length_le {α β : Type} {f g : α → List β} {xs : List α}
    (hle : ∀ x ∈ xs, (g x).length ≤ (f x).length) :
    (xs.flatMap g).length ≤ (xs.flatMap f).length ∧
      (xs.flatMap f = xs.flatMap g ↔ ∀ x ∈ xs, f x = g x) := by
  induction xs with
  | nil => simp
  | cons x xs ih =>
    obtain ⟨hx, hxs⟩ := List.forall_mem_cons.mp hle
    obtain ⟨hlen, heq⟩ := ih hxs
    rw [List.flatMap_cons, List.flatMap_cons, List.length_append, List.length_append,
      List.forall_mem_cons, ← heq]
    refine ⟨by omega, fun h => ?_, fun ⟨h, h'⟩ => by rw [h, h']⟩
    have htotal := congrArg List.length h
    rw [List.length_append, List.length_append] at htotal
    exact List.append_inj h (by omega)

/-! ## Reading back

`Spelling` keeps, for an expression, the type that is written and two lists of alternatives: those
that its text is read as, and those that are meant. -/

/-- An expression as it is written, as it is read and as it is meant. -/
structure Spelling where
  tree : TypeTree
  read : List TypeTree
  meant : List TypeTree

namespace Spelling

variable {p : Profile}

/-- What is known of the spelling of an expression.  The alternatives that are read are never fewer
than those that are meant, since an array takes all of its element's alternatives into one. -/
structure Spells (p : Profile) (e : TypeExpr) (x : Spelling) : Prop where
  tree : e.tree p = .ok x.tree
  tokens : ∃ ts, TypeTree.Alternatives ts x.read ∧ Scans x.tree.text.toList ts
  read_flat : TypeTree.Flat x.read
  meant_flat : TypeTree.Flat x.meant
  meaning : e.meaning p = .ofAlternatives x.meant
  length_le : x.meant.length ≤ x.read.length
  read_eq_iff : x.read = x.meant ↔ e.bindsArrays p

open TypeTree Related

section Lists

variable {es : List TypeExpr} {xs : List Spelling}

theorem trees_eq (h : List.Forall₂ (Spells p) es xs) :
    TypeExpr.trees p es = .ok (xs.map Spelling.tree) := by
  induction h with
  | nil => rfl
  | cons head _ ih => rw [TypeExpr.trees, head.tree, ih]; rfl

theorem tokens_eq (h : List.Forall₂ (Spells p) es xs) : ∃ tss,
    List.Forall₂ Alternatives tss (xs.map Spelling.read) ∧
      List.Forall₂ Scans ((texts (xs.map Spelling.tree)).map String.toList) tss := by
  induction h with
  | nil => exact ⟨[], .nil, .nil⟩
  | cons head _ ih =>
    obtain ⟨tss, halts, hscans⟩ := ih
    obtain ⟨ts, halt, hscan⟩ := head.tokens
    exact ⟨ts :: tss, .cons halt halts, .cons hscan hscans⟩

theorem meanings_eq (h : List.Forall₂ (Spells p) es xs) :
    TypeExpr.meanings p es = xs.map fun x => ofAlternatives x.meant := by
  induction h with
  | nil => rfl
  | cons head _ ih => rw [TypeExpr.meanings, head.meaning, ih, List.map_cons]

theorem forall_read_eq_iff (h : List.Forall₂ (Spells p) es xs) :
    (∀ x ∈ xs, x.read = x.meant) ↔ TypeExpr.bindAllArrays p es := by
  induction h with
  | nil => simp [TypeExpr.bindAllArrays]
  | cons head _ ih =>
    rw [TypeExpr.bindAllArrays, Bool.and_eq_true, List.forall_mem_cons, head.read_eq_iff, ih]

end Lists

/-! ## One form at a time -/

/-- The spelling of a name alone. -/
def bare (n : String) : Spelling := ⟨.name n, [.name n], [.name n]⟩

/-- The spelling of a name with arguments. -/
def applied (n : String) (xs : List Spelling) : Spelling where
  tree := .apply n (xs.map Spelling.tree)
  read := [.apply n (xs.map fun x => ofAlternatives x.read)]
  meant := [.apply n (xs.map fun x => ofAlternatives x.meant)]

/-- A name is read as it stands. -/
theorem Spells.bare {e : TypeExpr} {n : String} (hn : isName n) (htree : e.tree p = .ok (.name n))
    (hmeaning : e.meaning p = .name n) (hbinds : e.bindsArrays p = true) :
    Spells p e (bare n) where
  tree := htree
  tokens := ⟨_, .one (.name n), .name hn⟩
  read_flat := .singleton fun _ h => nomatch h
  meant_flat := .singleton fun _ h => nomatch h
  meaning := hmeaning
  length_le := Nat.le_refl _
  read_eq_iff := by simp [Spelling.bare, hbinds]

/-- A name with arguments is read as the name with what its arguments are read as. -/
theorem Spells.applied {e : TypeExpr} {n : String} {args : List TypeExpr} {xs : List Spelling}
    (h : List.Forall₂ (Spells p) args xs) (hn : isName n) (hne : args ≠ [])
    (htree : e.tree p = (TypeExpr.trees p args).map (.apply n))
    (hmeaning : e.meaning p = .apply n (TypeExpr.meanings p args))
    (hbinds : e.bindsArrays p = TypeExpr.bindAllArrays p args) :
    Spells p e (applied n xs) where
  tree := by rw [htree, trees_eq h]; rfl
  tokens := by
    obtain ⟨tss, halts, hscans⟩ := tokens_eq h
    have htss : tss ≠ [] := by
      rintro rfl
      exact hne (List.forall₂_nil_right_iff.mp (List.map_eq_nil_iff.mp
        (List.forall₂_nil_left_iff.mp halts) ▸ h))
    have hargs := TypeTree.Arguments.intercalate halts htss
    rw [List.map_map] at hargs
    have hjoined := Scans.intercalate separates_comma hscans
    have hscan := ((Scans.name hn).append_append separates_less hjoined).append separates_greater
    refine ⟨_, .one (.apply hargs), ?_⟩
    simpa [Spelling.applied, TypeTree.text] using hscan
  read_flat := .singleton fun _ h => nomatch h
  meant_flat := .singleton fun _ h => nomatch h
  meaning := by rw [hmeaning, meanings_eq h]; rfl
  length_le := Nat.le_refl _
  read_eq_iff := by
    have hinj : ∀ x ∈ xs, (ofAlternatives x.read = ofAlternatives x.meant ↔ x.read = x.meant) :=
      forall_mem_of_forall₂ (fun _ _ _ hx => ofAlternatives_inj hx.read_flat hx.meant_flat) h
    rw [hbinds, ← forall_read_eq_iff h]
    simp only [Spelling.applied, List.cons.injEq, TypeTree.apply.injEq, true_and, and_true,
      List.map_inj_left]
    exact forall₂_congr hinj

theorem Spells.reference {n : String} {g : TypeExpr} {gs : List TypeExpr} {xs : List Spelling}
    (h : List.Forall₂ (Spells p) (g :: gs) xs) (hn : isName n) :
    Spells p (.reference n (g :: gs)) (Spelling.applied n xs) :=
  .applied h hn (List.cons_ne_nil _ _) rfl rfl rfl

theorem Spells.base {n : String} {gs : List TypeExpr} {xs : List Spelling}
    (h : List.Forall₂ (Spells p) gs xs) (hn : n = p.dictionaryBase) (hne : gs ≠ []) :
    Spells p (.implementation n gs) (Spelling.applied "Record" xs) := by
  refine .applied h (by decide) hne ?_ ?_ ?_
  · rw [TypeExpr.tree, if_pos hn]; rfl
  · rw [TypeExpr.meaning, if_pos hn]
  · rw [TypeExpr.bindsArrays, if_pos (.inl hn)]

theorem Spells.ancestor {n : String} {gs : List TypeExpr} {xs : List Spelling}
    (h : List.Forall₂ (Spells p) gs xs) (hn : isName n) (hbase : n ≠ p.dictionaryBase)
    (hlen : 1 < gs.length) : Spells p (.implementation n gs) (Spelling.applied n xs) := by
  refine .applied h hn (List.ne_nil_of_length_pos (by omega)) ?_ ?_ ?_
  · rw [TypeExpr.tree, if_neg hbase, if_pos hlen]; rfl
  · rw [TypeExpr.meaning, if_neg hbase, if_pos hlen]
  · rw [TypeExpr.bindsArrays, if_pos (.inr hlen)]

/-- An ancestor with one argument is written without it. -/
theorem Spells.bareAncestor {n : String} {gs : List TypeExpr} (hn : isName n)
    (hbase : n ≠ p.dictionaryBase) (hlen : ¬ 1 < gs.length) :
    Spells p (.implementation n gs) (Spelling.bare n) := by
  refine .bare hn ?_ ?_ ?_
  · rw [TypeExpr.tree, if_neg hbase, if_neg hlen]; rfl
  · rw [TypeExpr.meaning, if_neg hbase, if_neg hlen]
  · rw [TypeExpr.bindsArrays, if_neg (by simp [hbase, hlen])]

theorem Spells.dictionary {k v : TypeExpr} {x y : Spelling} (hx : Spells p k x)
    (hy : Spells p v y) : Spells p (.dictionary k v) (Spelling.applied "Record" [x, y]) := by
  refine .applied (.cons hx (.cons hy .nil)) (by decide) (List.cons_ne_nil _ _) ?_ rfl ?_
  · rw [TypeExpr.tree, TypeExpr.trees, TypeExpr.trees, TypeExpr.trees, hx.tree, hy.tree]; rfl
  · simp [TypeExpr.bindsArrays, TypeExpr.bindAllArrays]

theorem Spells.singleKey {v : TypeExpr} {y : Spelling} (hy : Spells p v y) :
    Spells p (.singleKey v) (Spelling.applied "Record" [Spelling.bare "string", y]) := by
  have hstring : Spells p (.reference "string" []) (Spelling.bare "string") :=
    .bare (by decide) rfl rfl rfl
  refine .applied (.cons hstring (.cons hy .nil)) (by decide) (List.cons_ne_nil _ _) ?_ rfl ?_
  · rw [TypeExpr.tree, TypeExpr.trees, TypeExpr.trees, TypeExpr.trees, hy.tree]; rfl
  · simp [TypeExpr.bindsArrays, TypeExpr.bindAllArrays]

/-- An array suffix goes to the last alternative that is read, and makes one of all that are
meant. -/
theorem Spells.array {e : TypeExpr} {x : Spelling} (h : Spells p e x) {init : List TypeTree}
    {last : TypeTree} (hread : x.read = init ++ [last]) :
    Spells p (.array e)
      ⟨.array x.tree, init ++ [.array last], [.array (ofAlternatives x.meant)]⟩ := by
  refine ⟨?_, ?_, ?_, ?_, ?_, ?_, ?_⟩
  · rw [TypeExpr.tree, h.tree]; rfl
  · obtain ⟨ts, halt, hscan⟩ := h.tokens
    refine ⟨_, (hread ▸ halt).array, ?_⟩
    simpa [TypeTree.text] using hscan.append separates_brackets
  · refine ⟨by simp, fun a ha => ?_⟩
    rcases List.mem_append.mp ha with ha | ha
    · exact h.read_flat.2 a (hread ▸ List.mem_append_left _ ha)
    · obtain rfl := List.mem_singleton.mp ha
      exact fun _ h => nomatch h
  · exact .singleton fun _ h => nomatch h
  · rw [TypeExpr.meaning, h.meaning]; rfl
  · simp
  · have hmeant : (e.meaning p).alternatives = x.meant := by
      rw [h.meaning, h.meant_flat.alternatives_eq]
    rw [TypeExpr.bindsArrays, Bool.and_eq_true, hmeant, beq_iff_eq, ← h.read_eq_iff]
    change init ++ [last.array] = [] ++ [(ofAlternatives x.meant).array] ↔ _
    constructor
    · intro heq
      obtain ⟨rfl, hlast⟩ := List.append_inj' heq rfl
      have hlast' : last = ofAlternatives x.meant := by simpa using hlast
      have hsame : x.read = x.meant := by
        refine (ofAlternatives_inj h.read_flat h.meant_flat).mp ?_
        rw [hread]
        exact hlast'
      exact ⟨by rw [← hsame, hread]; rfl, hsame⟩
    · rintro ⟨hone, hsame⟩
      obtain ⟨m, hm⟩ := List.length_eq_one_iff.mp hone
      have hinit : init ++ [last] = [] ++ [m] := hread.symm.trans (hsame.trans hm)
      obtain ⟨rfl, hlast⟩ := List.append_inj' hinit rfl
      obtain rfl := List.singleton_inj.mp hlast
      rw [hm]
      rfl

/-- A union is read as the alternatives of its items, one after another. -/
theorem Spells.union {es : List TypeExpr} {xs : List Spelling}
    (h : List.Forall₂ (Spells p) es xs) (hne : es ≠ []) :
    Spells p (.union es)
      ⟨.union (xs.map Spelling.tree), xs.flatMap Spelling.read, xs.flatMap Spelling.meant⟩ := by
  have hxs : xs ≠ [] := fun hnil => hne (List.forall₂_nil_right_iff.mp (hnil ▸ h))
  have hle : ∀ x ∈ xs, x.meant.length ≤ x.read.length :=
    forall_mem_of_forall₂ (fun _ _ _ hx => hx.length_le) h
  have hmeant : ∀ as ∈ xs.map Spelling.meant, Flat as :=
    List.forall_mem_map.mpr (forall_mem_of_forall₂ (fun _ _ _ hx => hx.meant_flat) h)
  refine ⟨?_, ?_, ?_, ?_, ?_, (flatMap_inj_of_length_le hle).1, ?_⟩
  · rw [TypeExpr.tree, trees_eq h]; rfl
  · obtain ⟨tss, halts, hscans⟩ := tokens_eq h
    have htss : tss ≠ [] := by
      rintro rfl
      exact hxs (List.map_eq_nil_iff.mp (List.forall₂_nil_left_iff.mp halts))
    refine ⟨_, Alternatives.intercalate halts htss, ?_⟩
    simpa [TypeTree.text] using Scans.intercalate separates_bar hscans
  · exact List.flatMap_def ▸ .flatten (mt List.map_eq_nil_iff.mp hxs)
      (List.forall_mem_map.mpr (forall_mem_of_forall₂ (fun _ _ _ hx => hx.read_flat) h))
  · exact List.flatMap_def ▸ .flatten (mt List.map_eq_nil_iff.mp hxs) hmeant
  · rw [TypeExpr.meaning, meanings_eq h, List.flatMap_map]
    refine congrArg _ (List.flatMap_congr fun x hx => ?_)
    exact (hmeant _ (List.mem_map_of_mem hx)).alternatives_eq
  · rw [TypeExpr.bindsArrays, ← forall_read_eq_iff h]
    exact (flatMap_inj_of_length_le hle).2

end Spelling

open Spelling in
/-- Every legible expression has a spelling. -/
theorem TypeExpr.exists_spells {p : Profile} {e : TypeExpr} (h : e.isLegible p) :
    ∃ x, Spells p e x := by
  induction e using TypeExpr.induct with
  | reference n gs ih =>
    rw [isLegible, Bool.and_eq_true, areLegible_iff] at h
    obtain ⟨hn, hgs⟩ := h
    cases gs with
    | nil => exact ⟨_, .bare hn rfl rfl rfl⟩
    | cons g gs =>
      obtain ⟨xs, hxs⟩ := Related.exists_forall₂_iff.mpr fun e he => ih e he (hgs e he)
      exact ⟨_, .reference hxs hn⟩
  | implementation n gs ih =>
    rw [isLegible, Bool.and_eq_true, Bool.and_eq_true, areLegible_iff] at h
    obtain ⟨⟨hn, hgs⟩, hbase⟩ := h
    obtain ⟨xs, hxs⟩ := Related.exists_forall₂_iff.mpr fun e he => ih e he (hgs e he)
    by_cases hrecord : n = p.dictionaryBase
    · exact ⟨_, .base hxs hrecord (by simpa [hrecord] using hbase)⟩
    · by_cases hlen : 1 < gs.length
      · exact ⟨_, .ancestor hxs hn hrecord hlen⟩
      · exact ⟨_, .bareAncestor hn hrecord hlen⟩
  | array e ih =>
    obtain ⟨x, hx⟩ := ih h
    exact ⟨_, hx.array (List.dropLast_append_getLast hx.read_flat.1).symm⟩
  | dictionary k v ihk ihv =>
    rw [isLegible, Bool.and_eq_true] at h
    obtain ⟨x, hx⟩ := ihk h.1
    obtain ⟨y, hy⟩ := ihv h.2
    exact ⟨_, hx.dictionary hy⟩
  | singleKey v ih =>
    obtain ⟨y, hy⟩ := ih h
    exact ⟨_, hy.singleKey⟩
  | union items ih =>
    rw [isLegible, Bool.and_eq_true, areLegible_iff] at h
    obtain ⟨hne, hitems⟩ := h
    obtain ⟨xs, hxs⟩ := Related.exists_forall₂_iff.mpr fun e he => ih e he (hitems e he)
    exact ⟨_, .union hxs (by simpa using hne)⟩
  | unknown kind => exact absurd h Bool.false_ne_true

namespace TypeExpr

open TypeTree

/-- **A legible expression has a text that is read in exactly one way, and it is read as what the
expression means if and only if no array is written around a union of several alternatives.** -/
theorem reads_meaning_iff {p : Profile} {e : TypeExpr} (h : e.isLegible p) :
    ∃ text, e.text p = .ok text ∧ (∃! t, Reads text t) ∧
      (Reads text (e.meaning p) ↔ e.bindsArrays p) := by
  obtain ⟨x, hx⟩ := exists_spells h
  obtain ⟨ts, halts, hscan⟩ := hx.tokens
  have hread : Reads x.tree.text (ofAlternatives x.read) :=
    ⟨x.read, hscan.scan_eq.symm ▸ halts, rfl⟩
  refine ⟨x.tree.text, by rw [text, hx.tree]; rfl, ⟨_, hread, fun _ h => h.unique hread⟩, ?_⟩
  rw [← hx.read_eq_iff, ← ofAlternatives_inj hx.read_flat hx.meant_flat, ← hx.meaning]
  exact ⟨fun h => hread.unique h, fun h => h ▸ hread⟩

/-- An array of records that hold unions of arrays. -/
theorem array_record_reads_meaning :
    let e : TypeExpr :=
      .array (.singleKey (.union [.reference "A" [], .array (.reference "B" [])]))
    e.isLegible {} ∧ e.bindsArrays {} ∧
      ∃ text, e.text {} = .ok text ∧ (∃! t, Reads text t) ∧
        (Reads text (e.meaning {}) ↔ e.bindsArrays {}) :=
  ⟨by decide, by decide, reads_meaning_iff (by decide)⟩

/-- An array of a union is written without anything around the union, and is read as the union of
its first alternative with an array of its second. -/
theorem array_union_not_reads_meaning :
    let e : TypeExpr := .array (.union [.reference "A" [], .reference "B" []])
    e.isLegible {} ∧ e.text {} = .ok "A | B[]" ∧
      Reads "A | B[]" (.union [.name "A", .array (.name "B")]) ∧
      ¬ Reads "A | B[]" (e.meaning {}) := by
  have hread : Reads "A | B[]" (.union [.name "A", .array (.name "B")]) :=
    ⟨_, .more (.name "A") (.one (.array (.name "B"))), rfl⟩
  exact ⟨by decide, by decide, hread, fun h => nomatch h.unique hread⟩

end TypeExpr

end TypeCatalog
