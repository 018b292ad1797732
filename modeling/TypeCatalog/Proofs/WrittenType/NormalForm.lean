import TypeCatalog.Proofs.WrittenType.Names
import TypeCatalog.Proofs.WrittenType.ReadBack

/-!
# Proofs/WrittenType/NormalForm — which type expressions are written alike

`TypeExpr.normal` takes out of an expression what its text does not show: that a record was a
dictionary, that a reference was to an ancestor, how unions were nested, and what an array of a
union was around.  What is left is made of references, arrays and unions, and a type that has been
read is such an expression (`TypeTree.expr`).

**What the text of a legible expression is read as is its normal form**, and the normal form is
written as the expression is; so two expressions have the same text exactly if they have the same
normal form (`TypeExpr.text_eq_iff_normal_eq`).
-/

namespace TypeCatalog

open TypeToken

/-! ## Normal forms -/

namespace TypeExpr

/-- The alternatives of an expression: the items of a union, or the expression alone. -/
def alternatives : TypeExpr → List TypeExpr
  | union items => items
  | e => [e]

/-- The expression of one or more alternatives: a single one stands for itself. -/
def ofAlternatives : List TypeExpr → TypeExpr
  | [e] => e
  | es => union es

/-- Alternatives with an array around the last of them. -/
def arrayOfLast : List TypeExpr → List TypeExpr
  | [] => []
  | [e] => [array e]
  | e :: next :: rest => e :: arrayOfLast (next :: rest)

mutual
/-- **The normal form of an expression.** -/
def normal (p : Profile) : TypeExpr → TypeExpr
  | reference n gs => .reference n (normals p gs)
  | implementation n gs =>
    if n = p.dictionaryBase then .reference "Record" (normals p gs)
    else if 1 < gs.length then .reference n (normals p gs)
    else .reference n []
  | array element => ofAlternatives (arrayOfLast (element.normal p).alternatives)
  | dictionary key value => .reference "Record" [key.normal p, value.normal p]
  | singleKey value => .reference "Record" [.reference "string" [], value.normal p]
  | union items => ofAlternatives ((normals p items).flatMap alternatives)
  | unknown kind => .unknown kind

/-- The normal forms of several expressions. -/
def normals (p : Profile) : List TypeExpr → List TypeExpr
  | [] => []
  | e :: rest => e.normal p :: normals p rest
end

theorem arrayOfLast_concat (init : List TypeExpr) (last : TypeExpr) :
    arrayOfLast (init ++ [last]) = init ++ [array last] := by
  induction init with
  | nil => rfl
  | cons e rest ih =>
    cases rest with
    | nil => rfl
    | cons next rest =>
      rw [List.cons_append, List.cons_append, arrayOfLast, ← List.cons_append, ih,
        List.cons_append, List.cons_append, List.cons_append]

/-- The alternatives of the expression that they make are these again, if none is a union. -/
theorem alternatives_ofAlternatives {es : List TypeExpr} (h : ∀ e ∈ es, ∀ items, e ≠ union items) :
    (ofAlternatives es).alternatives = es := by
  match es, h with
  | [], _ => rfl
  | [e], h =>
    have := h e (List.mem_singleton_self e)
    cases e with
    | union items => exact absurd rfl (this items)
    | _ => rfl
  | _ :: _ :: _, _ => rfl

end TypeExpr

/-! ## A type that has been read, as an expression -/

namespace TypeTree

mutual
/-- The expression that a type is: its names are references. -/
def expr : TypeTree → TypeExpr
  | name n => .reference n []
  | apply n arguments => .reference n (exprs arguments)
  | array element => .array element.expr
  | union items => .union (exprs items)

/-- The expressions that several types are. -/
def exprs : List TypeTree → List TypeExpr
  | [] => []
  | t :: rest => t.expr :: exprs rest
end

theorem exprs_eq_map (ts : List TypeTree) : exprs ts = ts.map expr := by
  induction ts with
  | nil => rfl
  | cons t rest ih => rw [exprs, ih, List.map_cons]

theorem expr_ofAlternatives (ts : List TypeTree) :
    (ofAlternatives ts).expr = .ofAlternatives (ts.map expr) := by
  match ts with
  | [] => rfl
  | [t] => rfl
  | _ :: _ :: _ => exact congrArg TypeExpr.union (exprs_eq_map _)

theorem text_ofAlternatives (ts : List TypeTree) :
    (ofAlternatives ts).text = " | ".intercalate (texts ts) := by
  match ts with
  | [] => rfl
  | [t] => simp [ofAlternatives, texts]
  | _ :: _ :: _ => rfl

/-- Only a union is the expression of a union. -/
theorem Flat.expr_ne_union {as : List TypeTree} (h : Flat as) :
    ∀ e ∈ as.map expr, ∀ items, e ≠ .union items := by
  refine List.forall_mem_map.mpr fun t ht items => ?_
  cases t with
  | union ts => exact absurd rfl (h.2 _ ht ts)
  | _ => exact nofun

/-- An array suffix is written after the last alternative. -/
theorem intercalate_concat_array (init : List TypeTree) (last : TypeTree) :
    " | ".intercalate (texts (init ++ [array last])) =
      " | ".intercalate (texts (init ++ [last])) ++ "[]" := by
  by_cases hinit : init = []
  · simp [hinit, texts, text]
  · have happend (t : TypeTree) : " | ".intercalate (texts (init ++ [t])) =
        " | ".intercalate (texts init) ++ " | " ++ t.text := by
      rw [texts_eq_map, List.map_append, String.intercalate_append_of_ne_nil (by simpa) (by simp),
        texts_eq_map]
      simp
    rw [happend, happend, text, String.append_assoc, String.append_assoc, String.append_assoc]

end TypeTree

/-- Texts between separators, put together from texts between the same separators. -/
theorem intercalate_flatten (mark : String) {tss : List (List String)} (h : ∀ ts ∈ tss, ts ≠ []) :
    mark.intercalate (tss.map mark.intercalate) = mark.intercalate tss.flatten := by
  induction tss with
  | nil => rfl
  | cons ts rest ih =>
    obtain ⟨hts, hrest⟩ := List.forall_mem_cons.mp h
    cases rest with
    | nil => simp
    | cons next rest =>
      have hflat : (next :: rest).flatten ≠ [] := by simp [hrest next List.mem_cons_self]
      rw [List.map_cons, String.intercalate_cons_of_ne_nil (by simp), ih hrest,
        List.flatten_cons (l := ts), String.intercalate_append_of_ne_nil hts hflat]

/-! ## What is read is the normal form -/

namespace Spelling

open TypeTree Related

variable {p : Profile}

/-- What is known of the normal form of an expression that is spelt: the alternatives that are read
make it up, each is written as it stands there, and the text is theirs. -/
structure Normalizes (p : Profile) (e : TypeExpr) (x : Spelling) : Prop extends Spells p e x where
  normal : e.normal p = .ofAlternatives (x.read.map expr)
  tree_expr : ∀ t ∈ x.read, t.expr.tree p = .ok t
  text_read : x.tree.text = " | ".intercalate (texts x.read)

/-- Types that are each written as themselves are so together. -/
theorem trees_expr {ts : List TypeTree} (h : ∀ t ∈ ts, t.expr.tree p = .ok t) :
    TypeExpr.trees p (ts.map expr) = .ok ts :=
  TypeExpr.trees_eq_ok.mpr (List.forall₂_map_left_iff.mpr (List.forall₂_same.mpr h))

section Each

variable {e : TypeExpr} {x : Spelling}

theorem Normalizes.normal_eq_expr (h : Normalizes p e x) :
    e.normal p = (ofAlternatives x.read).expr := by
  rw [h.normal, expr_ofAlternatives]

theorem Normalizes.text_eq (h : Normalizes p e x) :
    x.tree.text = (ofAlternatives x.read).text := by
  rw [h.text_read, text_ofAlternatives]

theorem Normalizes.alternatives_normal (h : Normalizes p e x) :
    (e.normal p).alternatives = x.read.map expr := by
  rw [h.normal, TypeExpr.alternatives_ofAlternatives h.read_flat.expr_ne_union]

/-- The normal form is written as the type that is read. -/
theorem Normalizes.tree_normal (h : Normalizes p e x) :
    (e.normal p).tree p = .ok (ofAlternatives x.read) := by
  rw [h.normal]
  match x.read, h.tree_expr with
  | [], _ => rfl
  | [t], ht => exact ht t (List.mem_singleton_self t)
  | t :: u :: ts, ht => exact congrArg (Except.map TypeTree.union) (trees_expr ht)

end Each

section Lists

variable {es : List TypeExpr} {xs : List Spelling}

theorem normals_eq (h : List.Forall₂ (Normalizes p) es xs) :
    TypeExpr.normals p es = xs.map fun x => (ofAlternatives x.read).expr := by
  induction h with
  | nil => rfl
  | cons head _ ih => rw [TypeExpr.normals, head.normal_eq_expr, ih, List.map_cons]

theorem trees_normals (h : List.Forall₂ (Normalizes p) es xs) :
    TypeExpr.trees p (TypeExpr.normals p es) = .ok (xs.map fun x => ofAlternatives x.read) := by
  induction h with
  | nil => rfl
  | cons head _ ih => rw [TypeExpr.normals, TypeExpr.trees, head.tree_normal, ih]; rfl

theorem texts_eq (h : List.Forall₂ (Normalizes p) es xs) :
    texts (xs.map Spelling.tree) = texts (xs.map fun x => ofAlternatives x.read) := by
  induction h with
  | nil => rfl
  | cons head _ ih => rw [List.map_cons, List.map_cons, texts, texts, head.text_eq, ih]

theorem flatMap_alternatives_normals (h : List.Forall₂ (Normalizes p) es xs) :
    (TypeExpr.normals p es).flatMap TypeExpr.alternatives = (xs.flatMap Spelling.read).map expr := by
  induction h with
  | nil => rfl
  | cons head _ ih =>
    rw [TypeExpr.normals, List.flatMap_cons, head.alternatives_normal, ih, List.flatMap_cons,
      List.map_append]

theorem forall_spells (h : List.Forall₂ (Normalizes p) es xs) : List.Forall₂ (Spells p) es xs :=
  h.imp fun _ _ h => h.toSpells

end Lists

/-! ## One form at a time -/

theorem Normalizes.bare {e : TypeExpr} {n : String} (h : Spells p e (.bare n))
    (hnormal : e.normal p = .reference n []) : Normalizes p e (Spelling.bare n) where
  toSpells := h
  normal := hnormal
  tree_expr := List.forall_mem_singleton.mpr rfl
  text_read := String.intercalate_singleton.symm

theorem Normalizes.applied {e : TypeExpr} {n : String} {args : List TypeExpr} {xs : List Spelling}
    (hargs : List.Forall₂ (Normalizes p) args xs) (hne : args ≠ []) (h : Spells p e (.applied n xs))
    (hnormal : e.normal p = .reference n (TypeExpr.normals p args)) :
    Normalizes p e (Spelling.applied n xs) where
  toSpells := h
  normal := by
    rw [hnormal, normals_eq hargs]
    simp [Spelling.applied, TypeExpr.ofAlternatives, expr, exprs_eq_map]
  tree_expr := by
    refine List.forall_mem_singleton.mpr ?_
    have hnormals : TypeExpr.normals p args = exprs (xs.map fun x => ofAlternatives x.read) := by
      rw [normals_eq hargs, exprs_eq_map, List.map_map]
      rfl
    have htrees := trees_normals hargs
    rw [expr, ← hnormals]
    cases args with
    | nil => exact absurd rfl hne
    | cons a args => exact congrArg (Except.map (TypeTree.apply n)) htrees
  text_read := by
    simp only [Spelling.applied, texts, text, texts_eq hargs, String.intercalate_singleton]

theorem Normalizes.array {e : TypeExpr} {x : Spelling} (h : Normalizes p e x)
    {init : List TypeTree} {last : TypeTree} (hread : x.read = init ++ [last]) :
    Normalizes p (.array e)
      ⟨.array x.tree, init ++ [.array last], [.array (ofAlternatives x.meant)]⟩ where
  toSpells := h.toSpells.array hread
  normal := by
    rw [TypeExpr.normal, h.alternatives_normal, hread, List.map_append, List.map_singleton,
      TypeExpr.arrayOfLast_concat, List.map_append, List.map_singleton, expr]
  tree_expr := by
    obtain ⟨hinit, hlast⟩ := List.forall_mem_append.mp (hread ▸ h.tree_expr)
    refine List.forall_mem_append.mpr ⟨hinit, List.forall_mem_singleton.mpr ?_⟩
    rw [expr, TypeExpr.tree, hlast last (List.mem_singleton_self last)]
    rfl
  text_read := by
    rw [text, h.text_read, hread, intercalate_concat_array]

theorem Normalizes.union {es : List TypeExpr} {xs : List Spelling}
    (h : List.Forall₂ (Normalizes p) es xs) (hne : es ≠ []) :
    Normalizes p (.union es)
      ⟨.union (xs.map Spelling.tree), xs.flatMap Spelling.read, xs.flatMap Spelling.meant⟩ where
  toSpells := .union (forall_spells h) hne
  normal := by rw [TypeExpr.normal, flatMap_alternatives_normals h]
  tree_expr := by
    intro t ht
    obtain ⟨x, hx, ht⟩ := List.mem_flatMap.mp ht
    exact forall_mem_of_forall₂ (fun _ _ _ hx => hx.tree_expr) h x hx t ht
  text_read := by
    have htexts : ∀ x ∈ xs, (text ∘ Spelling.tree) x = " | ".intercalate (texts x.read) :=
      forall_mem_of_forall₂ (fun _ _ _ hx => hx.text_read) h
    have hne : ∀ ts ∈ xs.map fun x => texts x.read, ts ≠ [] := by
      refine List.forall_mem_map.mpr (forall_mem_of_forall₂ (fun _ _ _ hx => ?_) h)
      simpa [texts_eq_map] using hx.read_flat.1
    have hparts := intercalate_flatten " | " hne
    rw [List.map_map] at hparts
    rw [text, texts_eq_map, List.map_map, List.map_congr_left htexts]
    refine hparts.trans (congrArg _ ?_)
    rw [texts_eq_map, List.map_flatMap, List.flatMap_def]
    simp only [texts_eq_map]

end Spelling

namespace TypeExpr

open TypeTree Spelling

variable {p : Profile}

/-- Every legible expression has a spelling that tells its normal form. -/
theorem exists_normalizes {e : TypeExpr} (h : e.isLegible p) : ∃ x, Normalizes p e x := by
  induction e using TypeExpr.induct with
  | reference n gs ih =>
    rw [isLegible, Bool.and_eq_true, areLegible_iff] at h
    obtain ⟨hn, hgs⟩ := h
    cases gs with
    | nil => exact ⟨_, .bare (.bare hn rfl rfl rfl) rfl⟩
    | cons g gs =>
      obtain ⟨xs, hxs⟩ := Related.exists_forall₂_iff.mpr fun e he => ih e he (hgs e he)
      exact ⟨_, .applied hxs (List.cons_ne_nil _ _) (.reference (forall_spells hxs) hn) rfl⟩
  | implementation n gs ih =>
    rw [isLegible, Bool.and_eq_true, Bool.and_eq_true, areLegible_iff] at h
    obtain ⟨⟨hn, hgs⟩, hbase⟩ := h
    obtain ⟨xs, hxs⟩ := Related.exists_forall₂_iff.mpr fun e he => ih e he (hgs e he)
    by_cases hrecord : n = p.dictionaryBase
    · have hne : gs ≠ [] := by simpa [hrecord] using hbase
      refine ⟨_, .applied hxs hne (.base (forall_spells hxs) hrecord hne) ?_⟩
      rw [normal, if_pos hrecord]
    · by_cases hlen : 1 < gs.length
      · have hne : gs ≠ [] := List.ne_nil_of_length_pos (by omega)
        refine ⟨_, .applied hxs hne (.ancestor (forall_spells hxs) hn hrecord hlen) ?_⟩
        rw [normal, if_neg hrecord, if_pos hlen]
      · refine ⟨_, .bare (.bareAncestor hn hrecord hlen) ?_⟩
        rw [normal, if_neg hrecord, if_neg hlen]
  | array e ih =>
    obtain ⟨x, hx⟩ := ih h
    exact ⟨_, hx.array (List.dropLast_append_getLast hx.read_flat.1).symm⟩
  | dictionary k v ihk ihv =>
    rw [isLegible, Bool.and_eq_true] at h
    obtain ⟨x, hx⟩ := ihk h.1
    obtain ⟨y, hy⟩ := ihv h.2
    exact ⟨_, .applied (.cons hx (.cons hy .nil)) (List.cons_ne_nil _ _)
      (hx.toSpells.dictionary hy.toSpells) rfl⟩
  | singleKey v ih =>
    obtain ⟨y, hy⟩ := ih h
    have hstring : Normalizes p (.reference "string" []) (.bare "string") :=
      .bare (.bare (by decide) rfl rfl rfl) rfl
    exact ⟨_, .applied (.cons hstring (.cons hy .nil)) (List.cons_ne_nil _ _)
      hy.toSpells.singleKey rfl⟩
  | union items ih =>
    rw [isLegible, Bool.and_eq_true, areLegible_iff] at h
    obtain ⟨hne, hitems⟩ := h
    obtain ⟨xs, hxs⟩ := Related.exists_forall₂_iff.mpr fun e he => ih e he (hitems e he)
    exact ⟨_, .union hxs (by simpa using hne)⟩
  | unknown kind => exact absurd h Bool.false_ne_true

/-- **The text of a legible expression is that of its normal form, and is read as it.** -/
theorem text_reads_normal {e : TypeExpr} (h : e.isLegible p) : ∃ text t, e.text p = .ok text ∧
    (e.normal p).text p = .ok text ∧ Reads text t ∧ t.expr = e.normal p := by
  obtain ⟨x, hx⟩ := exists_normalizes h
  obtain ⟨ts, halts, hscan⟩ := hx.tokens
  refine ⟨x.tree.text, TypeTree.ofAlternatives x.read, ?_, ?_, ⟨x.read, ?_, rfl⟩, hx.normal_eq_expr.symm⟩
  · rw [text, hx.tree]; rfl
  · rw [text, hx.tree_normal, hx.text_eq]; rfl
  · exact hscan.scan_eq.symm ▸ halts

/-- **Two legible expressions have the same text exactly if they have the same normal form**, which
can be read off the text. -/
theorem text_eq_iff_normal_eq {e e' : TypeExpr} (h : e.isLegible p) (h' : e'.isLegible p) :
    ∃ text text', e.text p = .ok text ∧ e'.text p = .ok text' ∧
      (text = text' ↔ e.normal p = e'.normal p) ∧
      (∃! t, Reads text t) ∧ ∀ t, Reads text t → t.expr = e.normal p := by
  obtain ⟨text, t, htext, hnormal, hread, ht⟩ := text_reads_normal h
  obtain ⟨text', t', htext', hnormal', hread', ht'⟩ := text_reads_normal h'
  refine ⟨text, text', htext, htext', ⟨?_, fun heq => ?_⟩, ⟨t, hread, fun u hu => hu.unique hread⟩,
    fun u hu => hu.unique hread ▸ ht⟩
  · rintro rfl
    rw [← ht, hread.unique hread', ht']
  · rw [heq, hnormal'] at hnormal
    exact (Except.ok.inj hnormal).symm

/-- A dictionary of arrays of unions, and a reference with a union of an array. -/
theorem dictionary_text_eq :
    let e : TypeExpr := .dictionary (.reference "string" [])
      (.array (.union [.reference "A" [], .union [.implementation "B" [.reference "C" []]]]))
    let e' : TypeExpr := .reference "Record" [.reference "string" [],
      .union [.reference "A" [], .array (.reference "B" [])]]
    e.isLegible {} ∧ e'.isLegible {} ∧ e.text {} = e'.text {} := by
  intro e e'
  have he : e.isLegible {} := by decide
  have he' : e'.isLegible {} := by decide
  obtain ⟨text, text', htext, htext', hiff, -⟩ := text_eq_iff_normal_eq he he'
  exact ⟨he, he', by rw [htext, htext', hiff.mpr rfl]⟩

end TypeExpr

end TypeCatalog
