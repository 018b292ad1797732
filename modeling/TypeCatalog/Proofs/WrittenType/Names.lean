import TypeCatalog.Declaration.TypeTree
import TypeCatalog.Proofs.Failure

/-!
# Proofs/WrittenType/Names — where the names of a written type come from

Writing an expression makes up no names: those of its type are names in the expression, or one of
the few that the written language has of its own (`TypeExpr.names_tree`).
-/

namespace TypeCatalog

open Failure

mutual
/-- The names in an expression, at any depth. -/
def TypeExpr.names : TypeExpr → List String
  | reference n generics => n :: namesOf generics
  | implementation n generics => n :: namesOf generics
  | array element => element.names
  | dictionary key value => key.names ++ value.names
  | singleKey value => value.names
  | union items => namesOf items
  | unknown _ => []

/-- The names in several expressions. -/
def TypeExpr.namesOf : List TypeExpr → List String
  | [] => []
  | e :: rest => e.names ++ namesOf rest
end

mutual
/-- The names in a written type, at any depth. -/
def TypeTree.names : TypeTree → List String
  | name n => [n]
  | apply n arguments => n :: namesOf arguments
  | array element => element.names
  | union items => namesOf items

/-- The names in several written types. -/
def TypeTree.namesOf : List TypeTree → List String
  | [] => []
  | t :: rest => t.names ++ namesOf rest
end

theorem TypeTree.mem_namesOf {n : String} {ts : List TypeTree} :
    n ∈ namesOf ts ↔ ∃ t ∈ ts, n ∈ t.names := by
  induction ts with
  | nil => simp [namesOf]
  | cons t ts ih => simp [namesOf, ih]

theorem TypeExpr.mem_namesOf {n : String} {es : List TypeExpr} :
    n ∈ namesOf es ↔ ∃ e ∈ es, n ∈ e.names := by
  induction es with
  | nil => simp [namesOf]
  | cons e es ih => simp [namesOf, ih]

theorem TypeExpr.namesOf_append (es es' : List TypeExpr) :
    namesOf (es ++ es') = namesOf es ++ namesOf es' := by
  induction es with
  | nil => rfl
  | cons e es ih => rw [List.cons_append, namesOf, namesOf, ih, List.append_assoc]

theorem TypeExpr.namesOf_subset {es es' : List TypeExpr} (h : es ⊆ es') :
    namesOf es ⊆ namesOf es' := fun _ hn =>
  have ⟨e, he, hn⟩ := mem_namesOf.mp hn
  mem_namesOf.mpr ⟨e, h he, hn⟩

/-- What holds of the names in a written type holds of its text, if it holds of what the text is put
together from. -/
theorem TypeTree.text_closed {P : String → Prop} (append : ∀ {s t}, P s → P t → P (s ++ t))
    (angles : ∀ texts, (∀ s ∈ texts, P s) → P ("<" ++ ", ".intercalate texts ++ ">"))
    (square : P "[]") (bars : ∀ texts, (∀ s ∈ texts, P s) → P (" | ".intercalate texts))
    {t : TypeTree} (h : ∀ n ∈ t.names, P n) : P t.text := by
  induction t using TypeTree.induct with
  | name n => exact h n (List.mem_singleton_self n)
  | apply n arguments ih =>
    obtain ⟨hn, harguments⟩ := List.forall_mem_cons.mp h
    have htext : (apply n arguments).text =
        n ++ ("<" ++ ", ".intercalate (arguments.map text) ++ ">") := by
      simp only [text, texts_eq_map, String.append_assoc]
    rw [htext]
    refine append hn (angles _ (List.forall_mem_map.mpr fun t ht => ih t ht fun n hn => ?_))
    exact harguments n (mem_namesOf.mpr ⟨t, ht, hn⟩)
  | array element ih => exact append (ih h) square
  | union items ih =>
    rw [text, texts_eq_map]
    refine bars _ (List.forall_mem_map.mpr fun t ht => ih t ht fun n hn => ?_)
    exact h n (mem_namesOf.mpr ⟨t, ht, hn⟩)

/-- The names that the written language has of its own. -/
def languageNames : List String := ["string", "number", "Record"]

variable {p : Profile}

theorem TypeExpr.trees_eq_ok {es : List TypeExpr} {ts : List TypeTree} :
    trees p es = .ok ts ↔ List.Forall₂ (fun e t => e.tree p = .ok t) es ts := by
  rw [trees_eq_mapM, mapM_eq_ok]

/-- The names of written types, from those of each. -/
theorem TypeExpr.namesOf_trees_of {es : List TypeExpr}
    (h : ∀ e ∈ es, ∀ t, e.tree p = .ok t → t.names ⊆ e.names ++ languageNames)
    {ts : List TypeTree} (hts : trees p es = .ok ts) :
    TypeTree.namesOf ts ⊆ namesOf es ++ languageNames := by
  have heach := trees_eq_ok.mp hts
  clear hts
  induction heach with
  | nil => exact List.nil_subset _
  | @cons e t es ts hhead _ ih =>
    obtain ⟨he, hes⟩ := List.forall_mem_cons.mp h
    rw [TypeTree.namesOf, namesOf]
    have := he t hhead
    have := ih hes
    grind

/-- A written type has the names of its expression. -/
theorem TypeExpr.names_tree {e : TypeExpr} {t : TypeTree} (h : e.tree p = .ok t) :
    t.names ⊆ e.names ++ languageNames := by
  induction e using TypeExpr.induct generalizing t with
  | reference n gs ih =>
    cases gs with
    | nil =>
      obtain rfl := Except.ok.inj h
      simp [TypeTree.names, names]
    | cons g gs =>
      obtain ⟨ts, hts, rfl⟩ := map_eq_ok.mp h
      have := namesOf_trees_of (fun e he t => ih e he) hts
      rw [TypeTree.names, names]
      grind
  | implementation n gs ih =>
    rw [tree] at h
    rw [names]
    split at h
    · obtain ⟨ts, hts, rfl⟩ := map_eq_ok.mp h
      have := namesOf_trees_of (fun e he t => ih e he) hts
      rw [TypeTree.names]
      grind [languageNames]
    · split at h
      · obtain ⟨ts, hts, rfl⟩ := map_eq_ok.mp h
        have := namesOf_trees_of (fun e he t => ih e he) hts
        rw [TypeTree.names]
        grind
      · obtain rfl := Except.ok.inj h
        simp [TypeTree.names]
  | array e ih =>
    obtain ⟨element, helement, rfl⟩ := map_eq_ok.mp h
    rw [TypeTree.names, names]
    exact ih helement
  | dictionary k v ihk ihv =>
    obtain ⟨tk, htk, h⟩ := bind_eq_ok.mp h
    obtain ⟨tv, htv, h⟩ := bind_eq_ok.mp h
    obtain rfl := Except.ok.inj h
    have := ihk htk
    have := ihv htv
    simp only [TypeTree.record, TypeTree.names, TypeTree.namesOf, names]
    grind [languageNames]
  | singleKey v ih =>
    obtain ⟨value, hvalue, rfl⟩ := map_eq_ok.mp h
    have := ih hvalue
    simp only [TypeTree.record, TypeTree.names, TypeTree.namesOf, names]
    grind [languageNames]
  | union items ih =>
    obtain ⟨ts, hts, rfl⟩ := map_eq_ok.mp h
    exact namesOf_trees_of (fun e he t => ih e he) hts
  | unknown kind => cases h

theorem TypeExpr.namesOf_trees {es : List TypeExpr} {ts : List TypeTree}
    (h : trees p es = .ok ts) : TypeTree.namesOf ts ⊆ namesOf es ++ languageNames :=
  namesOf_trees_of (fun _ _ _ => names_tree) h

end TypeCatalog
