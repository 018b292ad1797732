import Mathlib.Data.Finset.Card
import Mathlib.Tactic.Choose
import TypeCatalog.Catalog.Knot
import TypeCatalog.Proofs.Document.FirstDefect
import TypeCatalog.Proofs.Yaml.ScalarFaults

/-!
# Proofs/Document/Knot — where a reading has no end

The value of a document is that of its graph, unrolled in layers, and steps lead through it as they
lead through the graph (`Yaml.Graph.exists_follow?`).  There are more steps to a defect beyond the
reach than there are nodes, so they come to some node again: **where a reading has no end, a node is
met inside itself** (`comesBack_of_isBeyond`).
-/

namespace TypeCatalog

open Place

namespace Yaml.Graph

variable {g : Graph}

/-! ## Layers -/

/-- The value of a node in the uppermost of so many layers. -/
def valueAt (g : Graph) (layers n : ℕ) : Value := ((g.layers layers)[n]?).getD .null

/-- Every value of a layer is made up of values in the layer and of values in the one below. -/
theorem getElem?_layer (below : Values) {n : ℕ} {p : Option Part} (hp : g.parts[n]? = some p) :
    ∃ vs : Values, (∀ (m : ℕ) (v : Value), vs[m]? = some v → (g.layer below)[m]? = some v) ∧
      (g.layer below)[n]? = some ((p.map (g.valueOf (vs.above below))).getD .null) := by
  obtain ⟨hn, hp⟩ := Array.getElem?_eq_some_iff.mp hp
  refine (Array.foldl_induction (motive := fun i (ws : Values) => ws.size = i ∧ (n < i →
    ∃ vs : Values, (∀ (m : ℕ) (v : Value), vs[m]? = some v → ws[m]? = some v) ∧
      ws[n]? = some ((p.map (g.valueOf (vs.above below))).getD .null)))
    ⟨rfl, fun h => absurd h (Nat.not_lt_zero n)⟩ ?_).2 hn
  rintro ⟨i, hi⟩ ws ⟨hsize, hws⟩
  dsimp only at hsize ⊢
  have hkept (x : Value) (m : ℕ) (v : Value) (hv : ws[m]? = some v) : (ws.push x)[m]? = some v := by
    rw [Array.getElem?_push, if_neg (Array.getElem?_eq_some_iff.mp hv).1.ne]
    exact hv
  refine ⟨by rw [Array.size_push, hsize], fun hlt => ?_⟩
  obtain hlt | rfl := Nat.lt_succ_iff_lt_or_eq.mp hlt
  · obtain ⟨vs, hvs, hvalue⟩ := hws hlt
    exact ⟨vs, fun m v hv => hkept _ m v (hvs m v hv), hkept _ n _ hvalue⟩
  · refine ⟨ws, hkept _, ?_⟩
    rw [Array.getElem?_push, if_pos hsize.symm]
    exact congrArg (fun p => some ((p.map (g.valueOf (ws.above below))).getD .null)) hp

theorem size_layer (below : Values) : (g.layer below).size = g.parts.size :=
  Array.foldl_induction (motive := fun i (ws : Values) => ws.size = i) rfl fun i ws hsize => by
    rw [Array.size_push, hsize]

/-- The values that make up a value in a layer are in the layer or in the one below. -/
theorem exists_valueAt_above {k : ℕ} {vs : Values}
    (h : ∀ (m : ℕ) (v : Value), vs[m]? = some v → (g.layers (k + 1))[m]? = some v) (m : ℕ) :
    ∃ j, vs.above (g.layers k) m = g.valueAt j m := by
  cases hv : vs[m]? with
  | none => exact ⟨k, by rw [Values.above, hv]; rfl⟩
  | some v => exact ⟨k + 1, by rw [Values.above, valueAt, hv, h m v hv]; rfl⟩

/-! ## Steps -/

theorem lookup_distinct (within : ℕ → Value) (name : String) (es : List (Key × ℕ)) :
    Value.lookup name (es.map fun (k, v) => (k.value, within v)) =
      ((es.find? fun e => e.1.value.isString name).map (·.2)).map within := by
  induction es with
  | nil => rfl
  | cons e es ih =>
    rw [List.map_cons, Value.lookup, ih, List.find?_cons]
    split <;> simp_all

/-- A node whose value is not null was met, and the value is made up of values in layers. -/
theorem exists_part {k n : ℕ} (h : g.valueAt k n ≠ .null) : ∃ p within, g.part? n = some p ∧
    g.valueAt k n = g.valueOf within p ∧ ∀ m, ∃ j, within m = g.valueAt j m := by
  cases k with
  | zero => exact absurd rfl h
  | succ k =>
    cases hn : g.parts[n]? with
    | none =>
      refine absurd ?_ h
      have hsize : (g.layer (g.layers k)).size = g.parts.size := size_layer _
      rw [valueAt, layers, Array.getElem?_eq_none (hsize ▸ Array.getElem?_eq_none_iff.mp hn)]
      rfl
    | some p? =>
      obtain ⟨vs, hvs, hvalue⟩ := getElem?_layer (g.layers k) hn
      have hat : g.valueAt (k + 1) n = (p?.map (g.valueOf (vs.above (g.layers k)))).getD .null := by
        rw [valueAt, layers, hvalue, Option.getD_some]
      cases p? with
      | none => exact absurd hat h
      | some p =>
        exact ⟨p, _, by rw [part?, hn]; rfl, hat, exists_valueAt_above hvs⟩

theorem follow?_of_isFlat {v : Value} (h : isFlat v = true) (step : Step) (steps : List Step) :
    Place.follow? (step :: steps) v = none := by
  cases v with
  | list | object => cases h
  | _ => cases step <;> rfl

theorem follow?_cons (n : ℕ) (step : Step) (steps : List Step) :
    g.follow? n (step :: steps) = (g.step? n step).bind fun m => g.follow? m steps := rfl

section Follow

variable (hflat : ∀ n v, g.part? n = some (.scalar v) → isFlat v = true)
include hflat

/-- A step into a value is one in the graph, unless no further step leads on. -/
theorem exists_step? {k n : ℕ} {step : Step} {v : Value}
    (h : Place.follow? [step] (g.valueAt k n) = some v) :
    n < g.parts.size ∧
      (isFlat v = true ∨ ∃ m j, g.step? n step = some m ∧ v = g.valueAt j m) := by
  have hne : g.valueAt k n ≠ .null := by
    intro hnull
    rw [hnull, follow?_of_isFlat rfl] at h
    cases h
  obtain ⟨p, within, hp, hvalue, hwithin⟩ := exists_part hne
  refine ⟨?_, ?_⟩
  · by_contra hlt
    rw [part?, Array.getElem?_eq_none (Nat.le_of_not_lt hlt)] at hp
    cases hp
  have hscalar (u : Value) (hu : p = .scalar u) : False := by
    subst hu
    rw [hvalue, valueOf, follow?_of_isFlat (hflat n u hp)] at h
    cases h
  rw [hvalue] at h
  cases step with
  | key name =>
    cases p with
    | object es =>
      rw [valueOf, Place.follow?, lookup_distinct] at h
      obtain ⟨u, hu, hv⟩ := Option.bind_eq_some_iff.mp h
      obtain ⟨m, hm, rfl⟩ := Option.map_eq_some_iff.mp hu
      obtain rfl := Option.some.inj hv
      obtain ⟨j, hj⟩ := hwithin m
      refine .inr ⟨m, j, ?_, hj⟩
      rw [step?, hp]
      exact hm
    | scalar u => exact (hscalar u rfl).elim
    | _ => cases h
  | index i =>
    cases p with
    | list items =>
      rw [valueOf, Place.follow?, List.getElem?_map] at h
      obtain ⟨u, hu, hv⟩ := Option.bind_eq_some_iff.mp h
      obtain ⟨m, hm, rfl⟩ := Option.map_eq_some_iff.mp hu
      obtain rfl := Option.some.inj hv
      obtain ⟨j, hj⟩ := hwithin m
      refine .inr ⟨m, j, ?_, hj⟩
      rw [step?, hp]
      exact hm
    | pairs es =>
      rw [valueOf, Place.follow?, List.getElem?_map] at h
      obtain ⟨u, hu, hv⟩ := Option.bind_eq_some_iff.mp h
      obtain ⟨e, -, rfl⟩ := Option.map_eq_some_iff.mp hu
      exact .inl (Option.some.inj hv ▸ rfl)
    | scalar u => exact (hscalar u rfl).elim
    | _ => cases h

/-- **Steps through the value of a document are steps through its graph**, by induction on them. -/
theorem exists_follow? {steps : List Step} {k n : ℕ} {v : Value}
    (h : Place.follow? steps (g.valueAt k n) = some v) :
    isFlat v = true ∨ ∃ m j, g.follow? n steps = some m ∧ v = g.valueAt j m := by
  induction steps generalizing k n with
  | nil => exact .inr ⟨n, k, rfl, (Option.some.inj h).symm⟩
  | cons step steps ih =>
    have hsplit := Place.follow?_append [step] steps (g.valueAt k n)
    rw [List.singleton_append, h] at hsplit
    obtain ⟨u, hu, hv⟩ := Option.bind_eq_some_iff.mp hsplit.symm
    obtain ⟨-, hleaf | ⟨m, j, hm, rfl⟩⟩ := exists_step? hflat hu
    · cases steps with
      | nil => exact .inl (Option.some.inj hv ▸ hleaf)
      | cons step' steps =>
        rw [follow?_of_isFlat hleaf] at hv
        cases hv
    · rw [follow?_cons, hm]
      exact ih hv

/-- Where steps lead on, they have come to a node that was met. -/
theorem exists_follow?_lt {front back : List Step} {step : Step} {k n : ℕ} {v : Value}
    (h : Place.follow? (front ++ step :: back) (g.valueAt k n) = some v) :
    ∃ m, g.follow? n front = some m ∧ m < g.parts.size := by
  rw [Place.follow?_append] at h
  obtain ⟨u, hu, hback⟩ := Option.bind_eq_some_iff.mp h
  obtain hleaf | ⟨m, j, hm, rfl⟩ := exists_follow? hflat hu
  · rw [follow?_of_isFlat hleaf] at hback
    cases hback
  · have hsplit := Place.follow?_append [step] back (g.valueAt j m)
    rw [List.singleton_append, hback] at hsplit
    obtain ⟨w, hw, -⟩ := Option.bind_eq_some_iff.mp hsplit.symm
    exact ⟨m, hm, (exists_step? hflat hw).1⟩

end Follow

/-! ## Ways that come back -/

/-- Some steps come to a node from which further ones lead to it again. -/
def ComesBack (g : Graph) (n : ℕ) (steps : List Step) : Prop :=
  ∃ front around back m, steps = front ++ around ++ back ∧ around ≠ [] ∧
    g.follow? n front = some m ∧ g.follow? m around = some m

theorem follow?_append (n : ℕ) (front back : List Step) :
    g.follow? n (front ++ back) = (g.follow? n front).bind fun m => g.follow? m back :=
  List.foldlM_append

/-- **More steps than there are nodes come back**, since two of them come to one node. -/
theorem comesBack_of_length (hflat : ∀ n v, g.part? n = some (.scalar v) → isFlat v = true)
    {steps : List Step} {k n : ℕ} {v : Value} (h : Place.follow? steps (g.valueAt k n) = some v)
    (hlength : g.parts.size < steps.length) : g.ComesBack n steps := by
  have hmet : ∀ i ∈ Finset.range steps.length,
      ∃ m, g.follow? n (steps.take i) = some m ∧ m ∈ Finset.range g.parts.size := by
    intro i hi
    have hsteps := List.take_append_drop i steps
    rw [List.drop_eq_getElem_cons (Finset.mem_range.mp hi)] at hsteps
    rw [← hsteps] at h
    obtain ⟨m, hm, hlt⟩ := exists_follow?_lt hflat h
    exact ⟨m, hm, Finset.mem_range.mpr hlt⟩
  choose! f hf using hmet
  obtain ⟨i, hi, j, hj, hne, heq⟩ := Finset.exists_ne_map_eq_of_card_lt_of_maps_to
    (by rwa [Finset.card_range, Finset.card_range]) fun i hi => (hf i hi).2
  wlog hlt : i < j generalizing i j
  · exact this j hj i hi hne.symm heq.symm (Nat.lt_of_le_of_ne (Nat.le_of_not_lt hlt) hne.symm)
  have hway : steps.take i ++ (steps.take j).drop i = steps.take j := by
    have hsplit := List.take_append_drop i (steps.take j)
    rwa [List.take_take, Nat.min_eq_left hlt.le] at hsplit
  have hfront := (hf i hi).1
  have haround := (hf j hj).1
  rw [← hway, follow?_append, hfront, Option.bind_some, ← heq] at haround
  refine ⟨steps.take i, (steps.take j).drop i, steps.drop j, f i, ?_, ?_, hfront, haround⟩
  · rw [hway, List.take_append_drop]
  · rw [ne_eq, List.drop_eq_nil_iff, List.length_take, Nat.not_le]
    exact Nat.lt_min.mpr ⟨hlt, hlt.trans (Finset.mem_range.mp hj)⟩

/-- What comes back does so with more steps after it. -/
theorem ComesBack.append {n : ℕ} {steps : List Step} (h : g.ComesBack n steps) (more : List Step) :
    g.ComesBack n (steps ++ more) := by
  obtain ⟨front, around, back, m, rfl, hne, hfront, haround⟩ := h
  exact ⟨front, around, back ++ more, m, List.append_assoc _ _ _, hne, hfront, haround⟩

end Yaml.Graph

/-! ## Defects beyond the reach -/

namespace Document

open Yaml Loaded

/-- The graph of a text has no steps into its scalars. -/
theorem isFlat_of_graph? {text : String} {g : Graph} (h : graph? text = .ok (some g)) (n : ℕ)
    (v : Value) (hn : g.part? n = some (.scalar v)) : isFlat v = true := by
  rw [graph?] at h
  split at h
  · cases h
  · cases h
  · next d _ =>
    rw [Yaml.Document.graph] at h
    cases hrun : Valuation.run d with
    | error e =>
      rw [hrun] at h
      cases h
    | ok parts =>
      rw [hrun] at h
      cases h
      exact Valuation.isFlat_of_run hrun (Option.join_eq_some_iff.mp hn)

/-- All steps but the last lead somewhere. -/
theorem Resolves.exists_follow? {w : Place} {doc : Value} (h : Resolves w doc) :
    ∃ front back v, w.steps = front ++ back ∧ back.length ≤ 1 ∧
      Place.follow? front doc = some v := by
  obtain ⟨v, hv⟩ | ⟨above, key, es, hsteps, habove, -⟩ := h
  · exact ⟨w.steps, [], v, (List.append_nil _).symm, Nat.zero_le 1, hv⟩
  · exact ⟨above, [.key key], .object es, hsteps, Nat.le_refl 1, habove⟩

/-- **Where a reading has no end, a node is met inside itself**: the way to a defect beyond the
reach comes back to it. -/
theorem comesBack_of_isBeyond {text : String} {g : Graph} {entries : List (Value × Value)}
    {d : Defect} (hgraph : graph? text = .ok (some g)) (hvalue : g.value = .object entries)
    (h : Catalog.ofDocument entries = .error (.defect d)) (hbeyond : d.isBeyond g = true) :
    ∃ w, d.place? = some w ∧ g.ComesBack g.root (.key "types" :: w.steps) := by
  obtain ⟨w, hw, hreach⟩ := (Option.any_eq_true _ _).mp hbeyond
  have hreach : g.reach < w.steps.length := of_decide_eq_true hreach
  refine ⟨w, hw, ?_⟩
  cases htypes : Value.lookup "types" entries with
  | none =>
    rw [Catalog.ofDocument, htypes] at h
    obtain rfl := LoadError.defect.inj (Except.error.inj h)
    cases hw
  | some types =>
    cases types with
    | list vs =>
      obtain ⟨w', _, _, _, _, hfirst⟩ := exists_firstDefect htypes h
      obtain rfl : w' = w := Option.some.inj (hfirst.tells.1.symm.trans hw)
      obtain ⟨front, back, v, hsteps, hback, hfollow⟩ := hfirst.resolves.exists_follow?
      have hvalue' : g.valueAt g.depth g.root = .object entries := hvalue
      have htop : Place.follow? (.key "types" :: front) (g.valueAt g.depth g.root) = some v := by
        rw [hvalue', Place.follow?, htypes]
        exact hfollow
      have hlong : g.parts.size < (Step.key "types" :: front).length := by
        rw [hsteps, List.length_append] at hreach
        rw [List.length_cons]
        unfold Graph.reach at hreach
        omega
      rw [hsteps]
      exact (Graph.comesBack_of_length (isFlat_of_graph? hgraph) htop hlong).append back
    | _ =>
      rw [Catalog.ofDocument, htypes] at h
      obtain rfl := LoadError.defect.inj (Except.error.inj h)
      cases hw

end Document

end TypeCatalog
