import Mathlib.Logic.Relation
import TypeCatalog.Proofs.Document.Pruned
import TypeCatalog.Proofs.Document.Verdict

/-!
# Proofs/Document/Unread — documents that differ only in what is not read

Of an object only its fields are read (`Role.fields`), wherever they stand among the entries.  An
edit (`Edited`) puts the entries of one object, at any depth, in another order, or adds an entry
there that is not read; documents between which such edits lead, forth and back, are read alike.

One thing beyond the fields is read: a kind that is not known is told in the message that refuses
it, with all its entries.  If that is what a reading stops at (`toldKind?`), it must be left as it
is.
-/

namespace TypeCatalog.Document

open Value Loaded Place

/-! ## Edits -/

/-- No two entries of an object are under the same key. -/
def KeysDiffer (es : List (Value × Value)) : Prop :=
  es.Pairwise fun e e' => e.1.sameKey e'.1 = false

mutual
/-- One edit in the object of these entries, or in what stands in it, when these fields of it are
read. -/
inductive EntriesEdited : List Field → List (Value × Value) → List (Value × Value) → Prop
  | reorder {fs : List Field} {es es' : List (Value × Value)} : KeysDiffer es → es.Perm es' →
      EntriesEdited fs es es'
  | add {fs : List Field} {k v : Value} (before after : List (Value × Value)) :
      (∀ f ∈ fs, k.isString f.key = false) →
      EntriesEdited fs (before ++ after) (before ++ (k, v) :: after)
  | inside {fs : List Field} {f : Field} {v v' : Value} (before after : List (Value × Value)) :
      f ∈ fs → Edited f.role v v' → EntriesEdited fs (before ++ (.string f.key, v) :: after)
        (before ++ (.string f.key, v') :: after)

/-- One edit in a value that is read as a role.  Nothing in a list whose items are not read is read,
nor in a pair. -/
inductive Edited : Role → Value → Value → Prop
  | object {r : Role} {es es' : List (Value × Value)} : EntriesEdited (r.fields es) es es' →
      Edited r (.object es) (.object es')
  | item {r s : Role} {v v' : Value} (before after : List Value) : r.item? = some s →
      Edited s v v' → Edited r (.list (before ++ v :: after)) (.list (before ++ v' :: after))
  | list {r : Role} {vs vs' : List Value} : r.item? = none → Edited r (.list vs) (.list vs')
  | pair {r : Role} {u v u' v' : Value} : Edited r (.pair u v) (.pair u' v')
end

/-- Edits lead from one document to another, forth or back. -/
def DifferUnread : List (Value × Value) → List (Value × Value) → Prop :=
  Relation.EqvGen (EntriesEdited [typesField])

/-! ## What is read stays the same -/

section Lookup

variable {key : String} {es es' : List (Value × Value)}

theorem exists_lookup_of_mem {v : Value} (h : (.string key, v) ∈ es) :
    ∃ u, lookup key es = some u := by
  induction es with
  | nil => nomatch h
  | cons e es ih =>
    rw [lookup]
    split
    · exact ⟨e.2, rfl⟩
    · next hne =>
      obtain rfl | h := List.mem_cons.mp h
      · exact absurd (isString_iff.mpr rfl) hne
      · exact ih h

/-- The order of entries under different keys makes no difference. -/
theorem lookup_perm (hes : KeysDiffer es) (hperm : es.Perm es') (key : String) :
    lookup key es = lookup key es' := by
  have hkeys : es.Pairwise fun e e' => e.1 = .string key → e'.1 ≠ .string key := by
    refine hes.imp fun {e e'} hdiffer he he' => ?_
    rw [he', sameKey_string, isString_iff.mpr he] at hdiffer
    cases hdiffer
  have back {v : Value} (h : lookup key es' = some v) : lookup key es = some v :=
    lookup_of_mem hkeys (hperm.mem_iff.mpr (mem_of_lookup h))
  refine Option.ext fun v => ⟨fun h => ?_, back⟩
  obtain ⟨u, hu⟩ := exists_lookup_of_mem (hperm.mem_iff.mp (mem_of_lookup h))
  rw [hu, ← back hu, h]

theorem lookup_middle (before after : List (Value × Value)) (k v : Value) :
    lookup key (before ++ (k, v) :: after) =
      if k.isString key then (lookup key before).or (some v) else lookup key (before ++ after) := by
  rw [lookup_append, lookup_append, lookup]
  split <;> rfl

end Lookup

mutual
/-- **An edit changes nothing of what is read under a field.** -/
theorem EntriesEdited.read {fs : List Field} {es es' : List (Value × Value)}
    (hkeys : (fs.map Field.key).Nodup) : EntriesEdited fs es es' →
      ∀ f ∈ fs, (lookup f.key es).map (pruned f.role) = (lookup f.key es').map (pruned f.role)
  | .reorder hes hperm => fun f _ => by rw [lookup_perm hes hperm f.key]
  | .add before after hk => fun f hf => by
    rw [lookup_middle, if_neg (Bool.eq_false_iff.mp (hk f hf))]
  | @EntriesEdited.inside _ g _ _ before after hg h => fun f hf => by
    -- The edit inside is used before `f` and `g` are identified: the recursion is on it as it is.
    have hread := h.read
    rw [lookup_middle, lookup_middle]
    split
    · next hkey =>
      have hfg : f.key = g.key := (Value.string.inj (isString_iff.mp hkey)).symm
      obtain rfl : f = g := List.inj_on_of_nodup_map hkeys hf hg hfg
      cases lookup f.key before with
      | none => exact congrArg some hread
      | some u => rfl
    · rfl

/-- A value is pruned alike before and after an edit. -/
theorem Edited.read {r : Role} {v v' : Value} : Edited r v v' → pruned r v = pruned r v'
  | .object h => pruned_object_congr (h.read (r.keys_nodup _))
  | .item before after hs h => by
    rw [pruned_list, pruned_list, hs, Option.elim_some, Option.elim_some]
    simp only [prunedItems_eq_map, List.map_append, List.map_cons, h.read]
  | .list hr => by rw [pruned_list, pruned_list, hr]; rfl
  | .pair => rfl
end

theorem DifferUnread.prunedEntries_eq {entries entries' : List (Value × Value)}
    (h : DifferUnread entries entries') :
    prunedEntries [typesField] entries = prunedEntries [typesField] entries' := by
  induction h with
  | rel _ _ h => exact prunedEntries_congr (h.read typesField_keys)
  | refl => rfl
  | symm _ _ _ ih => exact ih.symm
  | trans _ _ _ _ _ ih ih' => exact ih.trans ih'

/-! ## Where a reading stops -/

/-- The part of a document that its reading stops at, if it does not come to its end. -/
def stop? (entries : List (Value × Value)) : Option Part :=
  match lookup "types" entries with
  | some (.list vs) => (reading vs).find? fun p => p.fault?.isSome
  | _ => none

/-- The kind that is not known and is told for it, if a reading stops at one, and its place. -/
def toldKind? (entries : List (Value × Value)) : Option (Place × Value) :=
  (stop? entries).bind fun p =>
    if p.role.ofKind then p.value.map fun v => (p.place, v) else none

/-- What a document tells of a kind that is not known stands there in another document too. -/
def KeepsToldKind (entries entries' : List (Value × Value)) : Prop :=
  ∀ w v, toldKind? entries = some (w, v) →
    follow? (.key "types" :: w.steps) (.object entries') = some v

variable {entries entries' : List (Value × Value)} {vs vs' : List Value}

theorem findSome?_fault? (ps : List Part) :
    ps.findSome? Part.fault? = (ps.find? fun p => p.fault?.isSome).bind Part.fault? := by
  induction ps with
  | nil => rfl
  | cons p ps ih =>
    rw [List.findSome?_cons, List.find?_cons]
    cases hp : p.fault? with
    | none => exact ih
    | some e => exact hp.symm

theorem stop?_of_list (h : lookup "types" entries = some (.list vs)) :
    stop? entries = (reading vs).find? fun p => p.fault?.isSome := by
  rw [stop?, h]

/-- What a document is refused for is what is wrong with the part that its reading stops at. -/
theorem failure?_ofDocument (h : lookup "types" entries = some (.list vs)) :
    failure? (Catalog.ofDocument entries) = (stop? entries).bind Part.fault? := by
  rw [stop?_of_list h, ← findSome?_fault?]
  exact follows_reading h

/-- Documents of which the same is read stop at the same part, apart from what is not read there. -/
theorem stop?_congr (h : lookup "types" entries = some (.list vs))
    (h' : lookup "types" entries' = some (.list vs'))
    (hread : pruned (.list .definition) (.list vs) = pruned (.list .definition) (.list vs')) :
    (stop? entries).map Part.pruned = (stop? entries').map Part.pruned := by
  have hmap (us : List Value) : ((reading us).map Part.pruned).find? (fun p => p.fault?.isSome) =
      ((reading us).find? fun p => p.fault?.isSome).map Part.pruned := by
    rw [List.find?_map]
    simp only [Function.comp_def, Part.isSome_fault?_pruned]
  have hparts : (reading vs).map Part.pruned = (reading vs').map Part.pruned := by
    rw [reading, reading, ← parts_pruned, ← parts_pruned, hread]
  rw [stop?_of_list h, stop?_of_list h', ← hmap, ← hmap, hparts]

/-- The value of the part that a reading stops at stands there in the document. -/
theorem follow_of_stop? {p : Part} (h : lookup "types" entries = some (.list vs))
    (hp : stop? entries = some p) :
    follow? (.key "types" :: p.place.steps) (.object entries) = p.value := by
  rw [stop?_of_list h] at hp
  obtain ⟨steps, hplace, hvalue⟩ := follow_of_mem_parts (List.mem_of_find?_eq_some hp)
  rw [follow?, h, Option.bind_some, hplace]
  exact hvalue

/-- A kind that is told is told alike in both documents, and what else is wrong depends on nothing
that is not read. -/
theorem fault?_of_stop? {p p' : Part} (h' : lookup "types" entries' = some (.list vs'))
    (hp : stop? entries = some p) (hp' : stop? entries' = some p') (hread : p.pruned = p'.pruned)
    (hkind : KeepsToldKind entries entries') : p.fault? = p'.fault? := by
  have hplace : p.place = p'.place :=
    (congrArg Part.place hread : p.pruned.place = p'.pruned.place)
  have hrole : p.role = p'.role := (congrArg Part.role hread : p.pruned.role = p'.pruned.role)
  have hvalue : p.value.map (pruned p.role) = p'.value.map (pruned p'.role) :=
    congrArg Part.value hread
  by_cases hofKind : p.role.ofKind = true
  · suffices hsame : p.value = p'.value by
      rw [Part.fault?, Part.fault?, hplace, hrole, hsame]
    cases hv : p.value with
    | none =>
      rw [hv, Option.map_none, eq_comm, Option.map_eq_none_iff] at hvalue
      exact hvalue.symm
    | some v =>
      have htold : toldKind? entries = some (p.place, v) := by
        rw [toldKind?, hp, Option.bind_some, if_pos hofKind, hv, Option.map_some]
      rw [← follow_of_stop? h' hp', ← hplace, hkind _ _ htold]
  · have hplain : p.role.ofKind = false := Bool.eq_false_iff.mpr hofKind
    rw [← Part.fault?_pruned hplain, hread, Part.fault?_pruned (hrole ▸ hplain)]

/-! ## Documents -/

theorem eq_of_failure? {α : Type} {x y : Loaded α} (h : failure? x = failure? y)
    (hok : ∀ a b, x = .ok a → y = .ok b → a = b) : x = y := by
  cases x with
  | ok a =>
    cases y with
    | ok b => rw [hok a b rfl rfl]
    | error e => nomatch h
  | error d =>
    cases y with
    | ok b => nomatch h
    | error e => exact congrArg Except.error (Option.some.inj h)

theorem ofDocument_of_no_list (h : ∀ vs, lookup "types" entries ≠ some (.list vs)) :
    Catalog.ofDocument entries = refuse .missingTypes := by
  rw [Catalog.ofDocument.eq_def]
  split
  · next vs hvs => exact absurd hvs (h vs)
  · rfl

/-- Where a list is read, one is read of which the same is read. -/
theorem exists_list_of_read {r : Role} {v v' : Option Value}
    (hread : v.map (pruned r) = v'.map (pruned r)) (h : v = some (.list vs)) :
    ∃ vs', v' = some (.list vs') ∧ pruned r (.list vs) = pruned r (.list vs') := by
  rw [h, Option.map_some, eq_comm, Option.map_eq_some_iff] at hread
  obtain ⟨u, rfl, heq⟩ := hread
  cases u with
  | list vs' => exact ⟨vs', rfl, heq.symm⟩
  | _ => nomatch heq

theorem catalog_congr {c c' : Catalog}
    (hread : prunedEntries [typesField] entries = prunedEntries [typesField] entries')
    (hc : IsCatalog entries c) (hc' : IsCatalog entries' c') : c = c' := by
  have h := ofDocument_eq_ok.mpr hc.pruned
  have h' := ofDocument_eq_ok.mpr hc'.pruned
  rw [hread, h'] at h
  exact (Except.ok.inj h).symm

/-- Lists of entries of which the same is read have the same first fault. -/
theorem failure?_congr (h : lookup "types" entries = some (.list vs))
    (h' : lookup "types" entries' = some (.list vs'))
    (hread : pruned (.list .definition) (.list vs) = pruned (.list .definition) (.list vs'))
    (hkind : KeepsToldKind entries entries') :
    failure? (Catalog.ofDocument entries) = failure? (Catalog.ofDocument entries') := by
  have hstop := stop?_congr h h' hread
  rw [failure?_ofDocument h, failure?_ofDocument h']
  cases hp : stop? entries with
  | none =>
    rw [hp, Option.map_none, eq_comm, Option.map_eq_none_iff] at hstop
    rw [hstop]
  | some p =>
    rw [hp, Option.map_some, eq_comm, Option.map_eq_some_iff] at hstop
    obtain ⟨p', hp', hpruned⟩ := hstop
    rw [hp']
    exact fault?_of_stop? h' hp hp' hpruned.symm hkind

/-- **Documents of which the same is read are read alike**, if a kind that is told is the same. -/
theorem ofDocument_congr
    (hread : prunedEntries [typesField] entries = prunedEntries [typesField] entries')
    (hkind : KeepsToldKind entries entries') :
    Catalog.ofDocument entries = Catalog.ofDocument entries' := by
  have htypes : (lookup "types" entries).map (pruned (.list .definition)) =
      (lookup "types" entries').map (pruned (.list .definition)) := by
    rw [← lookup_pruned_types, hread, lookup_pruned_types]
  by_cases hlist : ∃ vs, lookup "types" entries = some (.list vs)
  · obtain ⟨vs, hvs⟩ := hlist
    obtain ⟨vs', hvs', heq⟩ := exists_list_of_read htypes hvs
    exact eq_of_failure? (failure?_congr hvs hvs' heq hkind) fun c c' hc hc' =>
      catalog_congr hread (ofDocument_eq_ok.mp hc) (ofDocument_eq_ok.mp hc')
  · have hlist' : ¬ ∃ vs', lookup "types" entries' = some (.list vs') := fun ⟨vs', hvs'⟩ =>
      have ⟨vs, hvs, _⟩ := exists_list_of_read htypes.symm hvs'
      hlist ⟨vs, hvs⟩
    rw [ofDocument_of_no_list (not_exists.mp hlist), ofDocument_of_no_list (not_exists.mp hlist')]

/-- **What is not read of a document makes no difference**: documents that differ in the order of
the entries of objects, at any depth, and in entries that are not read give the same catalog, or are
refused for the same defect, unless it tells of a kind that is not the same in both.  Only an
integer of too many digits can end a reading otherwise, and it ends both in the same way. -/
theorem ofDocument_unread (h : DifferUnread entries entries')
    (hkind : KeepsToldKind entries entries') :
    Catalog.ofDocument entries = Catalog.ofDocument entries' ∧
      (Fits (.object entries) → (∃ c, Catalog.ofDocument entries = .ok c) ∨
        ∃ d, Catalog.ofDocument entries = .error (.defect d)) :=
  ⟨ofDocument_congr h.prunedEntries_eq hkind, ofDocument_ok_or_defect⟩

/-- A document that is refused for a kind that is a list. -/
def bulkDocument : List (Value × Value) :=
  [(.string "types", .list [
    .object [(.string "kind", .string "enum"), (.string "name", .string "Order"),
      (.string "path", .null)],
    .object [(.string "kind", .list [.string "request"]), (.string "name", .string "Bulk")]])]

/-- The same with a version, without the path of an enumeration, and in another order. -/
def versionedDocument : List (Value × Value) :=
  [(.string "version", .int 7), (.string "types", .list [
    .object [(.string "kind", .string "enum"), (.string "name", .string "Order")],
    .object [(.string "name", .string "Bulk"), (.string "kind", .list [.string "request"])]])]

theorem bulkDocument_differUnread : DifferUnread bulkDocument versionedDocument := by
  have types {v v' : Value} (before after : List Value) (h : Edited .definition v v') :
      EntriesEdited [typesField] [(.string "types", .list (before ++ v :: after))]
        [(.string "types", .list (before ++ v' :: after))] :=
    .inside [] [] List.mem_cons_self (.item before after rfl h)
  have path := types [] [.object [(.string "kind", .list [.string "request"]),
    (.string "name", .string "Bulk")]] (.object (.add (k := .string "path") (v := .null)
      [(.string "kind", .string "enum"), (.string "name", .string "Order")] [] (by decide)))
  have order := types [.object [(.string "kind", .string "enum"), (.string "name", .string "Order")]]
    [] (.object (.reorder (by simp [KeysDiffer, sameKey]) (.swap (.string "name", .string "Bulk")
      (.string "kind", .list [.string "request"]) [])))
  have version : EntriesEdited [typesField] _ versionedDocument := .add [] _ (by decide)
  exact .trans _ _ _ (.symm _ _ (.rel _ _ path))
    (.trans _ _ _ (.rel _ _ order) (.rel _ _ version))

theorem bulkDocument_unread :
    DifferUnread bulkDocument versionedDocument ∧ KeepsToldKind bulkDocument versionedDocument ∧
    Catalog.ofDocument bulkDocument = Catalog.ofDocument versionedDocument ∧
    ∃ d, Catalog.ofDocument versionedDocument = .error (.defect d) := by
  have hkind : KeepsToldKind bulkDocument versionedDocument := by
    intro w v h
    have htold : toldKind? bulkDocument =
        some (⟨[.index 1, .key "kind"]⟩, .list [.string "request"]) := by rfl
    rw [htold] at h
    cases h
    rfl
  obtain ⟨heq, hdefect⟩ := ofDocument_unread bulkDocument_differUnread hkind
  refine ⟨bulkDocument_differUnread, hkind, heq, ?_⟩
  rw [← heq]
  refine (hdefect (by rfl)).resolve_left ?_
  rintro ⟨c, ⟨⟩⟩

end TypeCatalog.Document
