import Mathlib.Data.List.Basic
import Mathlib.Data.List.Nodup
import TypeCatalog.Catalog.Place
import TypeCatalog.Proofs.Document.ReadingOrder

/-!
# Proofs/Document/Site — where the parts of a document stand, and what changes with one of them

A `Site` is a way down a value, through fields and items, to what stands at its end or is missing
there.  Every part of a value stands at a site, or is the kind of the object there (`hasSite`), and
no two parts have the same place (`parts_apart`).  To replace what stands at a site is to replace a
stretch of the parts and nothing after it (`Site.replaced`).
-/

namespace TypeCatalog.Document

open Value Loaded Place

/-! ## Fields and their roles

The roles of kinds are those of fields under `kind`, and of nothing else. -/

/-- Whether a role, or what its items are read as, is that of a kind. -/
def Role.ofKind : Role → Bool
  | .expressionKind => true
  | .definitionKind => true
  | .list r => r.ofKind
  | .orNull r => r.ofKind
  | _ => false

theorem exprFields_plain (k : ExprKind) :
    ∀ f ∈ exprFields k, f.key ≠ "kind" ∧ f.role.ofKind = false := by
  cases k <;> decide

theorem definitionFields_plain (k : DefinitionKind) :
    ∀ f ∈ definitionFields k, f.key ≠ "kind" ∧ f.role.ofKind = false := by
  cases k <;> decide

theorem exists_mem_of_mem_kindFields {α : Type} {words : List (String × α)}
    {fields : α → List Field} {entries : List (Value × Value)} {f : Field}
    (h : f ∈ kindFields words fields entries) : ∃ k, f ∈ fields k := by
  cases hk : kindOf words (lookup "kind" entries) with
  | none =>
    rw [kindFields_of_none hk] at h
    nomatch h
  | some k =>
    rw [kindFields_of_some hk] at h
    exact ⟨k, h⟩

/-- A field is that of a kind, or has nothing to do with one. -/
theorem Role.mem_fields {r : Role} {es : List (Value × Value)} {f : Field} (h : f ∈ r.fields es) :
    (f = ⟨"kind", true, .expressionKind⟩ ∨ f = ⟨"kind", true, .definitionKind⟩) ∨
      (f.key ≠ "kind" ∧ f.role.ofKind = false) := by
  have hexpr (h : f ∈ Role.fields es .expression) :
      f = ⟨"kind", true, .expressionKind⟩ ∨ (f.key ≠ "kind" ∧ f.role.ofKind = false) := by
    obtain hf | h := List.mem_cons.mp h
    · exact .inl hf
    · obtain ⟨k, hk⟩ := exists_mem_of_mem_kindFields h
      exact .inr (exprFields_plain k f hk)
  induction r with
  | expression => exact (hexpr h).imp_left .inl
  | body => exact (hexpr h).imp_left .inl
  | definition =>
    obtain rfl | h := List.mem_cons.mp h
    · exact .inr (by decide)
    obtain hf | h := List.mem_cons.mp h
    · exact .inl (.inr hf)
    · obtain ⟨k, hk⟩ := exists_mem_of_mem_kindFields h
      exact .inr (definitionFields_plain k f hk)
  | property =>
    have plain : ∀ f ∈ Role.fields [] .property, f.key ≠ "kind" ∧ f.role.ofKind = false := by decide
    exact .inr (plain f h)
  | member =>
    have plain : ∀ f ∈ Role.fields [] .member, f.key ≠ "kind" ∧ f.role.ofKind = false := by decide
    exact .inr (plain f h)
  | orNull r ih => exact ih h
  | _ => nomatch h

/-- Under any other key there is no part of a kind. -/
theorem Role.not_ofKind_of_mem_fields {r : Role} {es : List (Value × Value)} {f : Field}
    (h : f ∈ r.fields es) (hkey : f.key ≠ "kind") : f.role.ofKind = false := by
  obtain (rfl | rfl) | ⟨_, hplain⟩ := Role.mem_fields h
  · exact absurd rfl hkey
  · exact absurd rfl hkey
  · exact hplain

theorem Role.kind_of_mem_fields {r k : Role} {es : List (Value × Value)}
    (h : ⟨"kind", true, k⟩ ∈ r.fields es) : k = .expressionKind ∨ k = .definitionKind := by
  obtain (hk | hk) | ⟨hne, -⟩ := Role.mem_fields h
  · exact .inl (Field.mk.inj hk).2.2
  · exact .inr (Field.mk.inj hk).2.2
  · exact absurd rfl hne

/-- A kind is a part alone. -/
theorem fieldParts_kind {r k : Role} {es : List (Value × Value)}
    (h : ⟨"kind", true, k⟩ ∈ r.fields es) (w : Place) :
    fieldParts ⟨"kind", true, k⟩ w es = [⟨w.key "kind", k, lookup "kind" es⟩] := by
  obtain rfl | rfl := Role.kind_of_mem_fields h
  · exact fieldParts_leaf (fun _ => rfl) rfl w "kind" es
  · exact fieldParts_leaf (fun _ => rfl) rfl w "kind" es

theorem exprFields_keys (k : ExprKind) : ("kind" :: (exprFields k).map Field.key).Nodup := by
  cases k <;> decide

theorem definitionFields_keys (k : DefinitionKind) :
    ("name" :: "kind" :: (definitionFields k).map Field.key).Nodup := by
  cases k <;> decide

/-- Of fields with different keys, the one of a key is found by it. -/
theorem find?_key {fs : List Field} (hkeys : (fs.map Field.key).Nodup) {f : Field} (hf : f ∈ fs) :
    (fs.find? fun g => (Value.string f.key).isString g.key) = some f := by
  induction fs with
  | nil => nomatch hf
  | cons g fs ih =>
    rw [List.map_cons, List.nodup_cons] at hkeys
    obtain rfl | hf := List.mem_cons.mp hf
    · rw [List.find?_cons_of_pos (by simp [isString])]
    · have hne : f.key ≠ g.key := fun heq => hkeys.1 (heq ▸ List.mem_map_of_mem hf)
      rw [List.find?_cons_of_neg (by simp [isString, hne]), ih hkeys.2 hf]

/-- No two fields of an object have the same key. -/
theorem Role.keys_nodup (r : Role) (es : List (Value × Value)) :
    ((r.fields es).map Field.key).Nodup := by
  have hexpr : ("kind" :: (kindFields exprKinds exprFields es).map Field.key).Nodup := by
    cases hk : kindOf exprKinds (lookup "kind" es) with
    | none =>
      rw [kindFields_of_none hk]
      exact List.nodup_singleton "kind"
    | some k =>
      rw [kindFields_of_some hk]
      exact exprFields_keys k
  induction r with
  | expression => exact hexpr
  | body => exact hexpr
  | definition =>
    change ("name" :: "kind" ::
      (kindFields definitionKinds definitionFields es).map Field.key).Nodup
    cases hk : kindOf definitionKinds (lookup "kind" es) with
    | none =>
      rw [kindFields_of_none hk]
      decide
    | some k =>
      rw [kindFields_of_some hk]
      exact definitionFields_keys k
  | property =>
    have keys : ((Role.fields [] .property).map Field.key).Nodup := by decide
    exact keys
  | member =>
    have keys : ((Role.fields [] .member).map Field.key).Nodup := by decide
    exact keys
  | orNull r ih => exact ih
  | _ => exact List.nodup_nil

/-- The fields of an object depend on its kind alone. -/
theorem Role.fields_congr (r : Role) {es es' : List (Value × Value)}
    (h : lookup "kind" es = lookup "kind" es') : r.fields es = r.fields es' := by
  induction r with
  | orNull r ih => exact ih
  | _ => simp only [Role.fields, kindFields, h]

theorem Role.accepts_object {r : Role} {es : List (Value × Value)} {f : Field}
    (h : f ∈ r.fields es) (es' : List (Value × Value)) : r.accepts (some (.object es')) := by
  induction r with
  | orNull r ih => exact ih h
  | _ => first | rfl | nomatch h

theorem Role.accepts_list {r s : Role} (h : r.item? = some s) (vs : List Value) :
    r.accepts (some (.list vs)) := by
  induction r with
  | orNull r ih => exact ih h
  | _ => first | rfl | nomatch h

theorem Role.ofKind_item {r s : Role} (h : r.item? = some s) (hr : r.ofKind = false) :
    s.ofKind = false := by
  induction r with
  | orNull r ih => exact ih h hr
  | list r _ =>
    cases h
    exact hr
  | body =>
    cases h
    rfl
  | _ => nomatch h

/-! ## Sites -/

/-- Steps lead from a value that is read as `r`, through fields and items, to what is read as `s`
there: a value, or none if it is missing. -/
inductive Site : Role → Value → List Step → Role → Option Value → Prop
  | here {r : Role} {v : Value} : Site r v [] r (some v)
  | missing {r : Role} {es : List (Value × Value)} {f : Field} : f ∈ r.fields es →
      f.key ≠ "kind" → f.required = true → lookup f.key es = none →
      Site r (.object es) [.key f.key] f.role none
  | field {r s : Role} {es : List (Value × Value)} {f : Field} {v : Value} {steps : List Step}
      {old : Option Value} : f ∈ r.fields es → f.key ≠ "kind" → lookup f.key es = some v →
      Site f.role v steps s old → Site r (.object es) (.key f.key :: steps) s old
  | item {r q s : Role} {vs : List Value} {i : Nat} {v : Value} {steps : List Step}
      {old : Option Value} : r.item? = some q → vs[i]? = some v → Site q v steps s old →
      Site r (.list vs) (.index i :: steps) s old

/-- What stands at the end of a site, or the part that is missing there. -/
def standing (s : Role) (w : Place) (old : Option Value) : List Part :=
  old.elim [⟨w, s, none⟩] (parts s w)

section Site

variable {r s : Role} {v : Value} {steps : List Step} {old : Option Value}

theorem Site.follow (h : Site r v steps s old) : follow? steps v = old := by
  induction h with
  | here => rfl
  | missing _ _ _ hlookup => rw [follow?, hlookup, Option.bind]
  | field _ _ hlookup _ ih => rw [follow?, hlookup, Option.bind_some, ih]
  | item _ hv _ ih => rw [follow?, hv, Option.bind_some, ih]

/-- What is missing is a field of an object that is there. -/
theorem Site.missing_field (h : Site r v steps s none) : ∃ above key es,
    steps = above ++ [.key key] ∧ follow? above v = some (.object es) ∧ lookup key es = none := by
  generalize hold : (none : Option Value) = old at h
  induction h with
  | here => nomatch hold
  | missing _ _ _ hlookup => exact ⟨[], _, _, rfl, rfl, hlookup⟩
  | field _ _ hlookup _ ih =>
    obtain ⟨above, key, es, rfl, habove, hkey⟩ := ih hold
    exact ⟨_ :: above, key, es, rfl, by rw [follow?, hlookup, Option.bind_some, habove], hkey⟩
  | item _ hv _ ih =>
    obtain ⟨above, key, es, rfl, habove, hkey⟩ := ih hold
    exact ⟨_ :: above, key, es, rfl, by rw [follow?, hv, Option.bind_some, habove], hkey⟩

theorem Site.not_ofKind (h : Site r v steps s old) (hr : r.ofKind = false) : s.ofKind = false := by
  induction h with
  | here => exact hr
  | missing hf hkey _ _ => exact Role.not_ofKind_of_mem_fields hf hkey
  | field hf hkey _ _ ih => exact ih (Role.not_ofKind_of_mem_fields hf hkey)
  | item hitem _ _ ih => exact ih (Role.ofKind_item hitem hr)

/-! ## Every part has a site -/

theorem itemParts_append (w : Place) (i : Nat) (us vs : List Value) :
    itemParts r w i (us ++ vs) = itemParts r w i us ++ itemParts r w (i + us.length) vs := by
  induction us generalizing i with
  | nil => rfl
  | cons u us ih =>
    have hi : i + 1 + us.length = i + (us.length + 1) := by omega
    rw [List.cons_append, itemParts, itemParts, ih, List.append_assoc, List.length_cons, hi]

theorem exists_of_mem_itemParts {w : Place} {i : Nat} {vs : List Value} {p : Part}
    (h : p ∈ itemParts r w i vs) : ∃ j v, vs[j]? = some v ∧ p ∈ parts r (w.index (i + j)) v := by
  induction vs generalizing i with
  | nil => nomatch h
  | cons v vs ih =>
    obtain h | h := List.mem_append.mp h
    · exact ⟨0, v, rfl, h⟩
    · obtain ⟨j, u, hu, hp⟩ := ih h
      have hi : i + 1 + j = i + (j + 1) := by omega
      exact ⟨j + 1, u, hu, hi ▸ hp⟩

/-- The part of a site, or the part of the kind of the object there. -/
inductive StandsAt (p : Part) (w : Place) (s : Role) (old : Option Value) : Prop
  | self : p = ⟨w, s, old⟩ → StandsAt p w s old
  | kind {es : List (Value × Value)} {k : Role} : old = some (.object es) →
      ⟨"kind", true, k⟩ ∈ s.fields es → p = ⟨w.key "kind", k, lookup "kind" es⟩ →
      StandsAt p w s old

/-- A part stands at a site, as itself or as the kind of the object there. -/
def HasSite (p : Part) (r : Role) (v : Value) (w : Place) : Prop :=
  ∃ steps s old, Site r v steps s old ∧ StandsAt p (w.through steps) s old

theorem hasSite_self (r : Role) (v : Value) (w : Place) : HasSite ⟨w, r, some v⟩ r v w :=
  ⟨[], r, some v, .here, .self (by rw [through_nil])⟩

theorem hasSite_field {es : List (Value × Value)} {f : Field} {w : Place} {p : Part}
    (hf : f ∈ r.fields es)
    (ih : ∀ v, lookup f.key es = some v → ∀ p ∈ parts f.role (w.key f.key) v,
      HasSite p f.role v (w.key f.key))
    (h : p ∈ fieldParts f w es) : HasSite p r (.object es) w := by
  have kind (k : Role) (hk : f = ⟨"kind", true, k⟩) : HasSite p r (.object es) w := by
    rw [hk] at hf h
    rw [fieldParts_kind hf, List.mem_singleton] at h
    exact ⟨[], r, _, .here, .kind rfl hf (by rw [through_nil]; exact h)⟩
  obtain (hk | hk) | ⟨hkey, -⟩ := Role.mem_fields hf
  · exact kind _ hk
  · exact kind _ hk
  obtain ⟨hv, hrequired, hp⟩ | ⟨v, hv, hp⟩ := mem_fieldParts h
  · refine ⟨_, f.role, none, .missing hf hkey hrequired hv, .self ?_⟩
    rw [through_key, through_nil]
    exact hp
  · obtain ⟨steps, s, old, hsite, hp⟩ := ih v hv p hp
    exact ⟨_, s, old, .field hf hkey hv hsite, by rw [through_key]; exact hp⟩

/-- **Every part of a value stands at a site, or is the kind of an object that does.** -/
theorem hasSite (r : Role) (v : Value) (w : Place) : ∀ p ∈ parts r w v, HasSite p r v w := by
  intro p h
  induction v using Value.inductParts generalizing r w p with
  | object es ih ihItems =>
    obtain rfl | h := List.mem_cons.mp (parts_object r w es ▸ h)
    · exact hasSite_self r _ w
    · obtain ⟨f, hf, h⟩ := List.mem_flatMap.mp h
      exact hasSite_field hf (fun v hv => ih f.key v hv f.role (w.key f.key)) h
  | list vs ih =>
    obtain rfl | h := List.mem_cons.mp (parts_list r w vs ▸ h)
    · exact hasSite_self r _ w
    cases hitem : r.item? with
    | none => simp [hitem] at h
    | some q =>
      rw [hitem, Option.elim_some] at h
      obtain ⟨i, v, hv, h⟩ := exists_of_mem_itemParts h
      rw [Nat.zero_add] at h
      obtain ⟨steps, s, old, hsite, hp⟩ := ih v (List.mem_of_getElem? hv) q _ p h
      exact ⟨_, s, old, .item hitem hv hsite, by rw [through_index]; exact hp⟩
  | other v hobject hlist =>
    rw [parts_other hobject hlist, List.mem_singleton] at h
    exact h ▸ hasSite_self r v w

/-- The value of a part is what its place leads to. -/
theorem follow_of_mem_parts {w : Place} {p : Part} (h : p ∈ parts r w v) :
    ∃ steps, p.place = w.through steps ∧ follow? steps v = p.value := by
  obtain ⟨steps, s, old, hsite, hp⟩ := hasSite r v w p h
  cases hp with
  | self hp =>
    subst hp
    exact ⟨steps, rfl, hsite.follow⟩
  | @kind es k hold _ hp =>
    subst hp hold
    refine ⟨steps ++ [.key "kind"], ?_, ?_⟩
    · rw [through, key, through, List.append_assoc]
    · rw [follow?_append, hsite.follow, Option.bind_some, follow?]
      cases lookup "kind" es <;> rfl

/-! ## No two parts have the same place -/

theorem StandsAt.prefix_place {p : Part} {w : Place} (h : StandsAt p w s old) :
    w.steps <+: p.place.steps := by
  cases h with
  | self hp => exact hp ▸ List.prefix_refl _
  | kind _ _ hp => exact hp ▸ List.prefix_append _ _

theorem prefix_of_mem_parts {w : Place} {p : Part} (h : p ∈ parts r w v) :
    w.steps <+: p.place.steps := by
  obtain ⟨steps, s, old, -, hp⟩ := hasSite r v w p h
  exact (List.prefix_append _ steps).trans hp.prefix_place

theorem prefix_of_mem_fieldParts {f : Field} {es : List (Value × Value)} {w : Place} {p : Part}
    (h : p ∈ fieldParts f w es) : (w.key f.key).steps <+: p.place.steps := by
  obtain ⟨-, -, rfl⟩ | ⟨v, -, hp⟩ := mem_fieldParts h
  · exact List.prefix_refl _
  · exact prefix_of_mem_parts hp

/-- Parts below different steps have different places. -/
theorem place_ne_of_prefix {w : Place} {p q : Part} {a b : Step} (hab : a ≠ b)
    (hp : w.steps ++ [a] <+: p.place.steps) (hq : w.steps ++ [b] <+: q.place.steps) :
    p.place ≠ q.place := by
  intro heq
  rw [heq] at hp
  have hab' : w.steps ++ [a] = w.steps ++ [b] :=
    (List.prefix_of_prefix_length_le hp hq (by simp)).eq_of_length (by simp)
  exact hab (List.singleton_inj.mp (List.append_cancel_left hab'))

theorem place_ne_of_below {w : Place} {p : Part} {a : Step}
    (hp : w.steps ++ [a] <+: p.place.steps) : w ≠ p.place := by
  rintro rfl
  have hlen := hp.length_le
  rw [List.length_append, List.length_singleton] at hlen
  omega

/-- The places of parts are different. -/
def Apart (p q : Part) : Prop := p.place ≠ q.place

theorem itemParts_apart {vs : List Value} {w : Place} {i : Nat}
    (ih : ∀ v ∈ vs, ∀ w, (parts r w v).Pairwise Apart) : (itemParts r w i vs).Pairwise Apart := by
  induction vs generalizing i with
  | nil => exact List.Pairwise.nil
  | cons v vs ihvs =>
    obtain ⟨hv, hvs⟩ := List.forall_mem_cons.mp ih
    refine List.pairwise_append.mpr ⟨hv _, ihvs hvs, fun p hp q hq => ?_⟩
    obtain ⟨j, u, -, hq⟩ := exists_of_mem_itemParts hq
    have hij : Step.index i ≠ .index (i + 1 + j) := by
      intro h
      injection h
      omega
    exact place_ne_of_prefix hij (prefix_of_mem_parts hp) (prefix_of_mem_parts hq)

theorem fieldParts_apart {f : Field} {es : List (Value × Value)} {w : Place}
    (ih : ∀ key v, lookup key es = some v → ∀ r w, (parts r w v).Pairwise Apart) :
    (fieldParts f w es).Pairwise Apart := by
  rw [fieldParts_eq]
  cases hv : lookup f.key es with
  | none =>
    rw [Option.elim_none]
    split
    · exact List.pairwise_singleton _ _
    · exact List.Pairwise.nil
  | some v => exact ih f.key v hv f.role _

/-- **No two parts of a value have the same place.** -/
theorem parts_apart (r : Role) (w : Place) (v : Value) : (parts r w v).Pairwise Apart := by
  induction v using Value.inductParts generalizing r w with
  | object es ih ihItems =>
    rw [parts_object, List.pairwise_cons, List.pairwise_flatMap]
    refine ⟨fun p hp => ?_, fun f hf => fieldParts_apart fun key v hv r w => ih key v hv r w, ?_⟩
    · obtain ⟨f, -, hp⟩ := List.mem_flatMap.mp hp
      exact place_ne_of_below (prefix_of_mem_fieldParts hp)
    · refine (List.pairwise_map.mp (Role.keys_nodup r es)).imp fun hfg p hp q hq => ?_
      refine place_ne_of_prefix ?_ (prefix_of_mem_fieldParts hp) (prefix_of_mem_fieldParts hq)
      exact fun h => hfg (Step.key.inj h)
  | list vs ih =>
    rw [parts_list, List.pairwise_cons]
    cases r.item? with
    | none => exact ⟨nofun, List.Pairwise.nil⟩
    | some q =>
      refine ⟨fun p hp => ?_, itemParts_apart fun v hv w => ih v hv q w⟩
      obtain ⟨j, v, -, hp⟩ := exists_of_mem_itemParts hp
      exact place_ne_of_below (prefix_of_mem_parts hp)
  | other v hobject hlist =>
    rw [parts_other hobject hlist]
    exact List.pairwise_singleton _ _

/-! ## Replacing what stands at a site -/

/-- Parts are without fault. -/
def Pass (ps : List Part) : Prop := ∀ p ∈ ps, p.fault? = none

theorem Pass.append {ps qs : List Part} (hp : Pass ps) (hq : Pass qs) : Pass (ps ++ qs) :=
  List.forall_mem_append.mpr ⟨hp, hq⟩

/-- The way to a site goes through parts that are objects and lists as they should be. -/
theorem pass_object {f : Field} {es : List (Value × Value)} (h : f ∈ r.fields es) (w : Place)
    (es' : List (Value × Value)) : Pass [⟨w, r, some (.object es')⟩] := by
  intro p hp
  rw [List.mem_singleton.mp hp, Part.fault?, if_pos (Role.accepts_object h es')]

theorem pass_list (h : r.item? = some s) (w : Place) (vs : List Value) :
    Pass [⟨w, r, some (.list vs)⟩] := by
  intro p hp
  rw [List.mem_singleton.mp hp, Part.fault?, if_pos (Role.accepts_list h vs)]

/-- Parts with a stretch replaced: nothing changes after it, and there is no new fault before. -/
def Replaced (ps ps' old new : List Part) : Prop :=
  ∃ before before' after, ps = before ++ old ++ after ∧ ps' = before' ++ new ++ after ∧
    (Pass before → Pass before')

theorem Replaced.self (old new : List Part) : Replaced old new old new :=
  ⟨[], [], [], (List.append_nil old).symm, (List.append_nil new).symm, id⟩

/-- What is replaced within a stretch is replaced within all. -/
theorem Replaced.within {ps ps' old new front front' : List Part} (h : Replaced ps ps' old new)
    (hfront : Pass front → Pass front') (back : List Part) :
    Replaced (front ++ ps ++ back) (front' ++ ps' ++ back) old new := by
  obtain ⟨before, before', after, rfl, rfl, hbefore⟩ := h
  refine ⟨front ++ before, front' ++ before', after ++ back, ?_, ?_, fun h => ?_⟩
  · simp only [List.append_assoc]
  · simp only [List.append_assoc]
  · obtain ⟨h₁, h₂⟩ := List.forall_mem_append.mp h
    exact (hfront h₁).append (hbefore h₂)

/-- One field of an object among the others, whose parts do not depend on it. -/
theorem parts_object_of_mem {f : Field} {es : List (Value × Value)} (hf : f ∈ r.fields es)
    (hkey : f.key ≠ "kind") (w : Place) : ∃ before after, ∀ es',
      (∀ key, key ≠ f.key → lookup key es' = lookup key es) → parts r w (.object es') =
        [⟨w, r, some (.object es')⟩] ++ before ++ fieldParts f w es' ++ after := by
  obtain ⟨fs, gs, hsplit⟩ := List.append_of_mem hf
  have hnodup := Role.keys_nodup r es
  rw [hsplit, List.map_append, List.map_cons, List.nodup_middle, List.nodup_cons,
    ← List.map_append] at hnodup
  refine ⟨fs.flatMap fun g => fieldParts g w es, gs.flatMap fun g => fieldParts g w es,
    fun es' h => ?_⟩
  have other : ∀ g ∈ fs ++ gs, fieldParts g w es' = fieldParts g w es := by
    intro g hg
    rw [fieldParts_eq, fieldParts_eq, h g.key fun heq => hnodup.1 (heq ▸ List.mem_map_of_mem hg)]
  have hfs := List.flatMap_congr fun g hg => other g (List.mem_append_left gs hg)
  have hgs := List.flatMap_congr fun g hg => other g (List.mem_append_right fs hg)
  have hfields : r.fields es' = fs ++ f :: gs :=
    (Role.fields_congr r (h "kind" (Ne.symm hkey))).trans hsplit
  rw [parts_object, hfields, List.flatMap_append, List.flatMap_cons, hfs, hgs]
  simp only [List.cons_append, List.nil_append, List.append_assoc]

/-- An entry that is added or changed, among the others. -/
theorem lookup_insert_of_ne {es : List (Value × Value)} {key k : String} (h : key ≠ k) (x : Value) :
    lookup key (insert es (.string k) x) = lookup key es := by
  rw [lookup_insert, if_neg (Ne.symm h)]

theorem fieldParts_insert (f : Field) (w : Place) (es : List (Value × Value)) (x : Value) :
    fieldParts f w (insert es (.string f.key) x) = parts f.role (w.key f.key) x := by
  rw [fieldParts_eq, lookup_insert, if_pos rfl, Option.elim_some]

/-- What is replaced in a field is replaced in the object. -/
theorem Replaced.object {f : Field} {es : List (Value × Value)} (hf : f ∈ r.fields es)
    (hkey : f.key ≠ "kind") {w : Place} {x : Value} {old new : List Part}
    (h : Replaced (fieldParts f w es) (parts f.role (w.key f.key) x) old new) :
    Replaced (parts r w (.object es)) (parts r w (.object (insert es (.string f.key) x)))
      old new := by
  obtain ⟨before, after, hparts⟩ := parts_object_of_mem hf hkey w
  rw [hparts es fun _ _ => rfl, hparts _ fun _ h => lookup_insert_of_ne h x, fieldParts_insert]
  refine h.within (fun hpass => (pass_object hf w _).append ?_) after
  exact (List.forall_mem_append.mp hpass).2

/-- What is replaced in an item is replaced in the list. -/
theorem Replaced.list {q : Role} {vs : List Value} {i : Nat} (hitem : r.item? = some q)
    (hv : vs[i]? = some v) {w : Place} {x : Value} {old new : List Part}
    (h : Replaced (parts q (w.index i) v) (parts q (w.index i) x) old new) :
    Replaced (parts r w (.list vs)) (parts r w (.list (vs.set i x))) old new := by
  obtain ⟨hi, rfl⟩ := List.getElem?_eq_some_iff.mp hv
  have hlen : 0 + (vs.take i).length = i := by
    rw [List.length_take]
    omega
  have hparts (y : Value) : parts r w (.list (vs.set i y)) =
      [⟨w, r, some (.list (vs.set i y))⟩] ++ itemParts q w 0 (vs.take i) ++
        parts q (w.index i) y ++ itemParts q w (i + 1) (vs.drop (i + 1)) := by
    rw [parts_list, hitem, Option.elim_some, List.set_eq_take_append_cons_drop, if_pos hi,
      itemParts_append, itemParts, hlen]
    simp only [List.cons_append, List.nil_append, List.append_assoc]
  have hold := hparts vs[i]
  rw [List.set_getElem_self] at hold
  rw [hold, hparts x]
  refine h.within (fun hpass => (pass_list hitem w _).append ?_) _
  exact (List.forall_mem_append.mp hpass).2

/-- **To replace what stands at a site is to replace a stretch of the parts.** -/
theorem Site.replaced (h : Site r v steps s old) (w : Place) (u : Value) :
    Replaced (parts r w v) (parts r w (replace u steps v)) (standing s (w.through steps) old)
      (parts s (w.through steps) u) := by
  induction h generalizing w with
  | here =>
    rw [through_nil]
    exact .self _ _
  | missing hf hkey hrequired hlookup =>
    rw [replace, through_key, through_nil]
    refine .object hf hkey ?_
    rw [fieldParts_eq, hlookup, Option.elim_none, if_pos hrequired]
    exact .self _ _
  | field hf hkey hlookup _ ih =>
    rw [replace, through_key, hlookup, Option.getD_some]
    refine .object hf hkey ?_
    rw [fieldParts_eq, hlookup, Option.elim_some]
    exact ih _
  | item hitem hv _ ih =>
    rw [replace, through_index, hv, Option.getD_some]
    exact .list hitem hv (ih _)

end Site

end TypeCatalog.Document
