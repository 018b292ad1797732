import TypeCatalog.Proofs.Document.Acceptance
import TypeCatalog.Proofs.Document.Site

/-!
# Proofs/Document/FirstDefect — the defect of a document is the first one, and stands where it says

A document that has a list of entries and is refused for a defect has a **first defect**
(`FirstDefect`): the place that the message names is there, or only its last key is missing; what
stands there breaks the check that the message names; and all that is read before passes.  A value
of the right form there leaves only what is read after it.
-/

namespace TypeCatalog.Document

open Value Loaded Place

/-! ## Values of the right form -/

/-- A value is of a role, with all that belongs to it. -/
def Role.Conforms : Role → Value → Prop
  | name, v => ∃ s, IsName (some v) s
  | truth, v => ∃ b, v = .bool b
  | representation, v => ∃ t, IsRepresentation v t
  | expression, v => ∃ e, IsExpr v e
  | property, v => ∃ q, IsProperty v q
  | member, v => ∃ m, IsMember v m
  | definition, v => ∃ d, IsDefinition v d
  | body, v => ∃ b, IsBody v b
  | list r, v => ∃ vs, v = .list vs ∧ ∀ u ∈ vs, r.Conforms u
  | orNull r, v => v = .null ∨ r.Conforms v
  | _, _ => False

section Pass

variable {α : Type} {w : Place} {v : Value}

theorem Follows.pass {x : Loaded α} {ps : List Part} {a : α} (h : Follows x ps) (hx : x = .ok a) :
    Pass ps := by
  rw [Follows, hx] at h
  exact List.findSome?_eq_none_iff.mp h.symm

/-- What is read without fault has no part with one. -/
theorem pass_of_reads {read : Place → Value → Loaded α} {is : Value → α → Prop} {r : Role} {a : α}
    (hobeys : Obeys read r v) (hreads : Reads read is v) (h : is v a) : Pass (parts r w v) :=
  (hobeys w).pass ((hreads w a).mpr h)

theorem Role.Conforms.pass {r : Role} (h : r.Conforms v) : Pass (parts r w v) := by
  induction r generalizing v w with
  | name =>
    obtain ⟨s, hs⟩ := h
    exact (obeys_name v w).pass (name_eq_ok.mpr hs)
  | truth =>
    obtain ⟨b, rfl⟩ := h
    exact (obeys_nullable _ w).pass rfl
  | representation =>
    obtain ⟨t, ht⟩ := h
    exact (obeys_representation v w).pass (representation_eq_ok.mpr ht)
  | expression =>
    obtain ⟨e, he⟩ := h
    exact pass_of_reads (obeys_expression v) (reads_expression v) he
  | property =>
    obtain ⟨q, hq⟩ := h
    exact pass_of_reads (obeys_property v) (reads_property v) hq
  | member =>
    obtain ⟨m, hm⟩ := h
    exact pass_of_reads (obeys_member v) (reads_member v) hm
  | definition =>
    obtain ⟨d, hd⟩ := h
    exact pass_of_reads (obeys_definition v) (reads_definition v) hd
  | body =>
    obtain ⟨b, hb⟩ := h
    exact pass_of_reads (obeys_body v) (reads_body v) hb
  | list r ih =>
    obtain ⟨vs, rfl, hvs⟩ := h
    intro p hp
    obtain rfl | hp := List.mem_cons.mp (parts_list _ w vs ▸ hp)
    · rfl
    · obtain ⟨j, u, hu, hp⟩ := exists_of_mem_itemParts hp
      exact ih (hvs u (List.mem_of_getElem? hu)) p hp
  | orNull r ih =>
    by_cases hnull : v = .null
    · subst hnull
      intro p hp
      rw [List.mem_singleton.mp hp]
      rfl
    · have hr : Pass (parts r w v) := ih (h.resolve_left hnull)
      have hfault := findSome?_parts_orNull (r := r) hnull w
      rw [List.findSome?_eq_none_iff.mpr hr] at hfault
      exact List.findSome?_eq_none_iff.mp hfault
  | _ => exact h.elim

end Pass

/-! ## What a defect says of a value -/

/-- A value, or its absence, breaks the check that a defect names. -/
def Breaks : Defect → Option Value → Prop
  | .notObject _, v => ∀ es, v ≠ some (.object es)
  | .notList _, v => ∀ vs, v ≠ some (.list vs)
  | .notName _, v => ∀ s, ¬ IsName v s
  | .notBoolean _, v => ∀ b, v ≠ some (.bool b)
  | .notScalar _, v => (∀ s, v ≠ some (.string s)) ∧ (∀ n, v ≠ some (.int n)) ∧
      (∀ x, v ≠ some (.float x)) ∧ ∀ b, v ≠ some (.bool b)
  | .unknownDefinitionKind _ kind, v => ∃ es, v = some (.object es) ∧
      (∀ k : DefinitionKind, ¬ HasKind es k.word) ∧
      ((lookup "kind" es).getD .null).printed? = some kind
  | .unknownExpressionKind _ kind, v => ∃ es, v = some (.object es) ∧
      (∀ k : ExprKind, ¬ HasKind es k.word) ∧
      ((lookup "kind" es).getD .null).printed? = some kind
  | _, _ => False

/-- A defect names a place, and what stands there breaks the check. -/
def Tells (d : Defect) (w : Place) (v : Option Value) : Prop := d.place? = some w ∧ Breaks d v

theorem tells_of_refusal {s : Role} {w : Place} {v : Option Value} {d : Defect}
    (hs : s.ofKind = false) (hv : s.accepts v = false) (h : s.refusal w v = .defect d) :
    Tells d w v := by
  have object (hobject : ∀ es, s.accepts (some (.object es)) = true) : Breaks (.notObject w) v := by
    rintro es rfl
    rw [hobject es] at hv
    cases hv
  induction s with
  | name =>
    cases h
    refine ⟨rfl, ?_⟩
    rintro s ⟨rfl, hs⟩
    simp [Role.accepts, hs] at hv
  | truth =>
    cases h
    refine ⟨rfl, ?_⟩
    rintro b rfl
    cases hv
  | representation =>
    have hint : ∀ n, v ≠ some (.int n) := by
      rintro n rfl
      cases h
    rw [Role.refusal] at h
    · cases h
      refine ⟨rfl, ?_, hint, ?_, ?_⟩
      · rintro s rfl
        cases hv
      · rintro x rfl
        cases hv
      · rintro b rfl
        cases hv
    · exact hint
  | list r ih =>
    cases h
    refine ⟨rfl, ?_⟩
    rintro vs rfl
    cases hv
  | orNull r ih =>
    have hr := Role.accepts_of_orNull hv
    exact ih hs hr h fun hobject => object hobject
  | expressionKind => cases hs
  | definitionKind => cases hs
  | _ =>
    cases h
    exact ⟨rfl, object fun _ => rfl⟩

/-- The refusal of a kind tells of the object. -/
theorem kindRefusal_eq_defect {told : String → Defect} {kind : Option Value} {d : Defect}
    (h : Role.kindRefusal told kind = .defect d) :
    ∃ t, (kind.getD .null).printed? = some t ∧ d = told t := by
  rw [Role.kindRefusal] at h
  cases ht : (kind.getD .null).printed? with
  | none =>
    rw [ht] at h
    cases h
  | some t =>
    rw [ht] at h
    exact ⟨t, rfl, (LoadError.defect.inj h).symm⟩

theorem tells_of_unknown_kind {s k : Role} {es : List (Value × Value)} {w : Place} {d : Defect}
    (hf : ⟨"kind", true, k⟩ ∈ s.fields es) (hk : k.accepts (lookup "kind" es) = false)
    (h : k.refusal (w.key "kind") (lookup "kind" es) = .defect d) :
    Tells d w (some (.object es)) := by
  obtain rfl | rfl := Role.kind_of_mem_fields hf
  · obtain ⟨t, ht, rfl⟩ := kindRefusal_eq_defect h
    rw [dropLast_key]
    refine ⟨rfl, es, rfl, fun k hkind => ?_, ht⟩
    rw [Role.accepts, kindOf_exprKinds.mpr hkind] at hk
    cases hk
  · obtain ⟨t, ht, rfl⟩ := kindRefusal_eq_defect h
    rw [dropLast_key]
    refine ⟨rfl, es, rfl, fun k hkind => ?_, ht⟩
    rw [Role.accepts, kindOf_definitionKinds.mpr hkind] at hk
    cases hk

theorem Part.fault?_eq_some {p : Part} {e : LoadError} (h : p.fault? = some e) :
    p.role.accepts p.value = false ∧ p.role.refusal p.place p.value = e := by
  rw [Part.fault?] at h
  split at h
  · cases h
  · next hp => exact ⟨Bool.eq_false_iff.mpr hp, Option.some.inj h⟩

theorem StandsAt.tells {p : Part} {w : Place} {s : Role} {old : Option Value} {d : Defect}
    (h : StandsAt p w s old) (hs : s.ofKind = false) (hd : p.fault? = some (.defect d)) :
    Tells d w old := by
  obtain ⟨hv, hrefusal⟩ := Part.fault?_eq_some hd
  cases h with
  | self hp =>
    subst hp
    exact tells_of_refusal hs hv hrefusal
  | kind hold hf hp =>
    subst hp
    exact hold ▸ tells_of_unknown_kind hf hv hrefusal

/-! ## The first defect -/

/-- Steps lead to what is there, or to a key that is missing in an object that is. -/
def Resolves (w : Place) (doc : Value) : Prop :=
  (∃ v, w.find? doc = some v) ∨ ∃ above key es, w.steps = above ++ [.key key] ∧
    follow? above doc = some (.object es) ∧ lookup key es = none

/-- A reading succeeds, or fails with the fault of one of these parts; a defect is then told of the
place where that part stands. -/
def OkOrFault {α : Type} (doc : Value) (x : Loaded α) (ps : List Part) : Prop :=
  (∃ a, x = .ok a) ∨ ∃ q ∈ ps, ∃ e, x = .error e ∧ q.fault? = some e ∧
    ∀ d, e = .defect d → ∃ w s, StandsAt q w s (w.find? doc) ∧ Tells d w (w.find? doc)

/-- A document with its entries replaced. -/
def withTypes (entries : List (Value × Value)) (types : Value) : List (Value × Value) :=
  insert entries (.string "types") types

/-- **The first defect of a document** with the entries `vs`: it is told of the place `w`, which is
read as `s`; the part `p` has it, and all parts `before` are without fault. -/
structure FirstDefect (entries : List (Value × Value)) (vs : List Value) (d : Defect) (w : Place)
    (s : Role) (before : List Part) (p : Part) (after : List Part) : Prop where
  /-- The message names the place. -/
  message : ∃ front back, d.message = front ++ w.text ++ back
  /-- The place is one of an entry, and leads somewhere. -/
  entry : ∃ i steps, i < vs.length ∧ w.steps = .index i :: steps
  resolves : Resolves w (.list vs)
  /-- What stands there breaks the check that the message names. -/
  tells : Tells d w (w.find? (.list vs))
  /-- The reading has one part at each place, and stops at the part with the defect. -/
  apart : (reading vs).Pairwise Apart
  order : reading vs = before ++ p :: after
  passed : Pass before
  fault : p.fault? = some (.defect d)
  /-- That is the part at the place, or the kind of the object there. -/
  role : ⟨w, s, w.find? (.list vs)⟩ ∈ reading vs
  stands : StandsAt p w s (w.find? (.list vs))
  /-- With a value of the right form there, only what comes later can be at fault. -/
  repair : ∀ u, s.Conforms u →
    OkOrFault (.list vs)
      (Catalog.ofDocument (withTypes entries (replace u w.steps (.list vs)))) after

/-- A defect of a part is told of the place where it stands. -/
theorem exists_tells {r : Role} {doc : Value} {q : Part} {d : Defect} (hr : r.ofKind = false)
    (hq : q ∈ parts r {} doc) (h : q.fault? = some (.defect d)) :
    ∃ w s, StandsAt q w s (w.find? doc) ∧ Tells d w (w.find? doc) := by
  obtain ⟨steps, s, old, hsite, hstands⟩ := hasSite r doc {} q hq
  obtain rfl := hsite.follow
  exact ⟨⟨steps⟩, s, hstands, hstands.tells (hsite.not_ofKind hr) h⟩

theorem Follows.okOrFault {α : Type} {x : Loaded α} {r : Role} {doc : Value} {ps : List Part}
    (h : Follows x ps) (hr : r.ofKind = false) (hsub : ps ⊆ parts r {} doc) :
    OkOrFault doc x ps := by
  cases x with
  | ok a => exact .inl ⟨a, rfl⟩
  | error e =>
    obtain ⟨q, hq, he⟩ := List.exists_of_findSome?_eq_some h.symm
    refine .inr ⟨q, hq, e, rfl, he, ?_⟩
    rintro d rfl
    exact exists_tells hr (hsub hq) he

theorem OkOrFault.mono {α : Type} {doc : Value} {x : Loaded α} {ps qs : List Part}
    (h : OkOrFault doc x ps) (hsub : ps ⊆ qs) : OkOrFault doc x qs :=
  h.imp_right fun ⟨q, hq, e, he⟩ => ⟨q, hsub hq, e, he⟩

/-- Parts without fault are passed over. -/
theorem Follows.of_append {α : Type} {x : Loaded α} {ps qs : List Part} (hp : Pass ps)
    (h : Follows x (ps ++ qs)) : Follows x qs := by
  rwa [Follows, List.findSome?_append, List.findSome?_eq_none_iff.mpr hp, Option.none_or] at h

theorem StandsAt.mem_standing {p : Part} {w : Place} {s : Role} {old : Option Value}
    (h : StandsAt p w s old) : p ∈ standing s w old := by
  cases h with
  | self hp =>
    subst hp
    cases old with
    | none => exact List.mem_singleton_self _
    | some v => cases v <;> exact List.mem_cons_self
  | kind hold hf hp =>
    subst hold
    refine List.mem_cons_of_mem _ (List.mem_flatMap.mpr ⟨_, hf, ?_⟩)
    rw [fieldParts_kind hf, List.mem_singleton]
    exact hp

/-- What stands at a site is a stretch of the parts. -/
theorem Site.standing_subset {r s : Role} {v : Value} {steps : List Step} {old : Option Value}
    (h : Site r v steps s old) (w : Place) : standing s (w.through steps) old ⊆ parts r w v := by
  obtain ⟨before, before', after, hparts, -, -⟩ := h.replaced w .null
  rw [hparts]
  exact fun p hp => List.mem_append_left after (List.mem_append_right before hp)

/-- After the part with the first fault, what a replacement leaves is later. -/
theorem Replaced.exists_follows {α : Type} {ps ps' old new before after : List Part} {p : Part}
    {x : Loaded α} (h : Replaced ps ps' old new) (hx : Follows x ps') (hnew : Pass new)
    (hp : p ∈ old) (hapart : ps.Pairwise Apart) (hsplit : ps = before ++ p :: after)
    (hbefore : Pass before) : ∃ rest, rest ⊆ after ∧ Follows x rest := by
  obtain ⟨front, front', back, hps, rfl, hfront⟩ := h
  obtain ⟨inner, rest, rfl⟩ := List.append_of_mem hp
  have hps' : ps = (front ++ inner) ++ p :: (rest ++ back) := by
    simp only [hps, List.append_assoc, List.cons_append]
  -- The part is where it is only once, so both ways to split the parts are the same.
  have hapart' := List.pairwise_append.mp (hsplit ▸ hapart)
  have hmem_before : p ∉ before := fun h => hapart'.2.2 p h p List.mem_cons_self rfl
  have hmem_after : p ∉ after := fun h => (List.pairwise_cons.mp hapart'.2.1).1 p h rfl
  obtain ⟨hfront_eq, -, hback_eq⟩ :=
    (List.append_cons_inj_of_notMem hmem_before hmem_after).mp (hsplit.symm.trans hps')
  have hpass : Pass front := fun q hq => hbefore q (hfront_eq ▸ List.mem_append_left inner hq)
  refine ⟨back, hback_eq ▸ List.subset_append_right rest back, ?_⟩
  exact hx.of_append ((hfront hpass).append hnew)

/-- The site of a fault leads into an entry. -/
theorem Site.entry_of_fault {vs : List Value} {steps : List Step} {s : Role} {old : Option Value}
    {p : Part} {w : Place} {e : LoadError}
    (h : Site (.list .definition) (.list vs) steps s old) (hp : StandsAt p w s old)
    (hfault : p.fault? = some e) : ∃ i below, i < vs.length ∧ steps = .index i :: below := by
  cases h with
  | here =>
    cases hp with
    | self hp =>
      subst hp
      nomatch hfault
    | kind hold _ _ => nomatch hold
  | item _ hv _ => exact ⟨_, _, (List.getElem?_eq_some_iff.mp hv).1, rfl⟩

theorem Site.resolves {r s : Role} {v : Value} {steps : List Step} {old : Option Value}
    (h : Site r v steps s old) : Resolves ⟨steps⟩ v := by
  cases old with
  | some u => exact .inl ⟨u, h.follow⟩
  | none => exact .inr h.missing_field

/-- A document after a replacement in its entries is read as these are. -/
theorem follows_withTypes (entries : List (Value × Value)) {vs : List Value} {i : Nat}
    {below : List Step} (u : Value) :
    Follows (Catalog.ofDocument (withTypes entries (replace u (.index i :: below) (.list vs))))
      (parts (.list .definition) {} (replace u (.index i :: below) (.list vs))) := by
  refine follows_reading ?_
  rw [withTypes, lookup_insert, if_pos rfl, replace]

/-- **A document that is refused for a defect has this as its first defect.** -/
theorem exists_firstDefect {entries : List (Value × Value)} {vs : List Value} {d : Defect}
    (htypes : lookup "types" entries = some (.list vs))
    (h : Catalog.ofDocument entries = .error (.defect d)) :
    ∃ w s before p after, FirstDefect entries vs d w s before p after := by
  have hreading := follows_reading htypes
  rw [Follows, h] at hreading
  obtain ⟨before, p, after, horder, hfault, hpassed⟩ := List.findSome?_eq_some_iff.mp hreading.symm
  have hmem : p ∈ reading vs := horder ▸ List.mem_append_right before List.mem_cons_self
  obtain ⟨steps, s, old, hsite, hstands⟩ := hasSite _ _ _ p hmem
  obtain ⟨i, below, hi, rfl⟩ := hsite.entry_of_fault hstands hfault
  obtain rfl := hsite.follow
  have htells := hstands.tells (hsite.not_ofKind rfl) hfault
  have hsub := hsite.standing_subset {}
  refine ⟨⟨.index i :: below⟩, s, before, p, after,
    { message := Defect.message_of_place? htells.1
      entry := ⟨i, below, hi, rfl⟩
      resolves := hsite.resolves
      tells := htells
      apart := parts_apart _ _ _
      order := horder
      passed := hpassed
      fault := hfault
      role := hsub (StandsAt.self rfl).mem_standing
      stands := hstands
      repair := fun u hu => ?_ }⟩
  obtain ⟨rest, hrest, hfollows⟩ := (hsite.replaced {} u).exists_follows
    (follows_withTypes entries u) hu.pass hstands.mem_standing (parts_apart _ _ _) horder hpassed
  have hafter : after ⊆ reading vs := fun q hq =>
    horder ▸ List.mem_append_right before (List.mem_cons_of_mem p hq)
  exact (hfollows.okOrFault rfl fun q hq => hafter (hrest hq)).mono hrest

/-- The document of an interface whose second member has an array without elements. -/
theorem array_without_element_firstDefect :
    let entries := [(.string "types", .list [.object [(.string "kind", .string "interface"),
      (.string "name", .string "Hits"), (.string "properties", .list [
        .object [(.string "name", .string "total"), (.string "type", .string "long")],
        .object [(.string "name", .string "hits"), (.string "type", .object
          [(.string "kind", .string "array_of")])]])]])]
    let place : Place := ⟨[.index 0, .key "properties", .index 1, .key "type", .key "of"]⟩
    Catalog.ofDocument entries = .error (.defect (.notObject place)) ∧
      ∃ vs w s before p after, FirstDefect entries vs (.notObject place) w s before p after :=
  ⟨by rfl, _, exists_firstDefect (by rfl) (by rfl)⟩

end TypeCatalog.Document
