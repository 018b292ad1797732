import TypeCatalog.Proofs.Document.FirstDefect
import TypeCatalog.Proofs.Related

/-!
# Proofs/Document/Verdict — a document is a catalog, or is refused for a defect

Apart from defects, the one thing that stops a reading is an integer with more digits than may be
written: as a representation, or in a kind that is not known and has to be told.  A document whose
integers are short enough (`Value.Fits`) is therefore loaded as the catalog that it is, or refused
for a defect, and nothing else comes of it.
-/

namespace TypeCatalog

open Number

namespace Value

mutual
/-- Whether all integers in a value have few enough digits to be written. -/
def fits : Value → Bool
  | int n => (Nat.toDigits 10 n.natAbs).length ≤ digitLimit
  | list items => allFit items
  | object entries => entriesFit entries
  | set items => allFit items
  | pair a b => fits a && fits b
  | _ => true

/-- Whether this holds of all values of a list. -/
def allFit : List Value → Bool
  | [] => true
  | v :: rest => fits v && allFit rest

/-- Whether this holds of the keys and the values of all entries. -/
def entriesFit : List (Value × Value) → Bool
  | [] => true
  | (k, v) :: rest => fits k && fits v && entriesFit rest
end

/-- All integers in a value have few enough digits to be written. -/
def Fits (v : Value) : Prop := v.fits = true

theorem allFit_iff {vs : List Value} : allFit vs ↔ ∀ v ∈ vs, Fits v := by
  induction vs with
  | nil => simp [allFit]
  | cons v vs ih => rw [allFit, Bool.and_eq_true, ih, List.forall_mem_cons, Fits]

theorem entriesFit_iff {es : List (Value × Value)} :
    entriesFit es ↔ ∀ e ∈ es, Fits e.1 ∧ Fits e.2 := by
  induction es with
  | nil => simp [entriesFit]
  | cons e es ih =>
    rw [entriesFit, Bool.and_eq_true, Bool.and_eq_true, ih, List.forall_mem_cons, Fits, Fits]

theorem Fits.lookup {es : List (Value × Value)} {key : String} {v : Value}
    (h : Fits (.object es)) (hv : lookup key es = some v) : Fits v :=
  (entriesFit_iff.mp h (.string key, v) (mem_of_lookup hv)).2

theorem Fits.of_mem {vs : List Value} {v : Value} (h : Fits (.list vs)) (hv : v ∈ vs) : Fits v :=
  allFit_iff.mp h v hv

theorem Fits.integerText? {n : Int} (h : Fits (.int n)) : (Number.integerText? n).isSome := by
  have hlen : ¬ digitLimit < (Nat.toDigits 10 n.natAbs).length := by
    rw [Fits, fits, decide_eq_true_iff] at h
    omega
  rw [Number.integerText?]
  simp only [if_neg hlen, Option.isSome_some]

mutual
/-- A value whose integers are short enough can be written. -/
theorem isSome_printed? : (v : Value) → v.fits → (printed? v).isSome
  | null, _ => rfl
  | bool _, _ => rfl
  | int n, h => Fits.integerText? h
  | float _, _ => rfl
  | string _, _ => rfl
  | list items, h => by
    rw [printed?, Option.isSome_map]
    exact isSome_printedItems? items h
  | object entries, h => by
    rw [printed?, Option.isSome_map]
    exact isSome_printedEntries? entries h
  | day _, _ => rfl
  | moment _, _ => rfl
  | bytes _, _ => rfl
  | set [], _ => rfl
  | set (v :: vs), h => by
    rw [printed?, Option.isSome_map]
    exact isSome_printedItems? (v :: vs) h
  | pair a b, h => by
    rw [fits, Bool.and_eq_true] at h
    obtain ⟨s, hs⟩ := Option.isSome_iff_exists.mp (isSome_printed? a h.1)
    obtain ⟨t, ht⟩ := Option.isSome_iff_exists.mp (isSome_printed? b h.2)
    rw [printed?, hs, ht]
    rfl

theorem isSome_printedItems? : (vs : List Value) → allFit vs → (printedItems? vs).isSome
  | [], _ => rfl
  | v :: vs, h => by
    rw [allFit, Bool.and_eq_true] at h
    obtain ⟨t, ht⟩ := Option.isSome_iff_exists.mp (isSome_printed? v h.1)
    obtain ⟨ts, hts⟩ := Option.isSome_iff_exists.mp (isSome_printedItems? vs h.2)
    rw [printedItems?, ht, hts]
    rfl

theorem isSome_printedEntries? :
    (es : List (Value × Value)) → entriesFit es → (printedEntries? es).isSome
  | [], _ => rfl
  | (k, v) :: es, h => by
    rw [entriesFit, Bool.and_eq_true, Bool.and_eq_true] at h
    obtain ⟨s, hs⟩ := Option.isSome_iff_exists.mp (isSome_printed? k h.1.1)
    obtain ⟨t, ht⟩ := Option.isSome_iff_exists.mp (isSome_printed? v h.1.2)
    obtain ⟨ts, hts⟩ := Option.isSome_iff_exists.mp (isSome_printedEntries? es h.2)
    rw [printedEntries?, hs, ht, hts]
    rfl
end

theorem Fits.printed? {v : Value} (h : Fits v) : (Value.printed? v).isSome := isSome_printed? v h

end Value

namespace Document

open Value Loaded

/-! ## Only defects -/

/-- What fits has only parts that fit. -/
theorem fits_of_site {r s : Role} {v u : Value} {steps : List Step}
    (h : Site r v steps s (some u)) (hv : Fits v) : Fits u := by
  generalize hold : some u = old at h
  induction h with
  | here => exact Option.some.inj hold ▸ hv
  | missing => nomatch hold
  | field _ _ hlookup _ ih => exact ih (hv.lookup hlookup) hold
  | item _ hitem _ ih => exact ih (hv.of_mem (List.mem_of_getElem? hitem)) hold

theorem kindRefusal_of_fits {told : String → Defect} {kind : Option Value}
    (h : Fits (kind.getD .null)) : ∃ d, Role.kindRefusal told kind = .defect d := by
  obtain ⟨t, ht⟩ := Option.isSome_iff_exists.mp h.printed?
  exact ⟨told t, by rw [Role.kindRefusal, ht]; rfl⟩

/-- What is reported of a value that fits is a defect. -/
theorem refusal_of_fits {r : Role} {w : Place} {v : Option Value} (hv : r.accepts v = false)
    (h : Fits (v.getD .null)) : ∃ d, r.refusal w v = .defect d := by
  induction r with
  | representation =>
    cases v with
    | none => exact ⟨_, rfl⟩
    | some v =>
      cases v with
      | int n =>
        rw [Role.accepts, Fits.integerText? h] at hv
        cases hv
      | _ => exact ⟨_, rfl⟩
  | orNull r ih => exact ih (Role.accepts_of_orNull hv)
  | expressionKind => exact kindRefusal_of_fits h
  | definitionKind => exact kindRefusal_of_fits h
  | _ => exact ⟨_, rfl⟩

/-- What is wrong with a part of a value that fits is a defect. -/
theorem fault_of_fits {r : Role} {v : Value} {w : Place} {p : Part} {e : LoadError} (hv : Fits v)
    (hp : p ∈ parts r w v) (he : p.fault? = some e) : ∃ d, e = .defect d := by
  obtain ⟨hrefused, rfl⟩ := Part.fault?_eq_some he
  refine refusal_of_fits hrefused ?_
  obtain ⟨steps, s, old, hsite, hstands⟩ := hasSite r v w p hp
  cases hstands with
  | self hp =>
    subst hp
    cases old with
    | none => rfl
    | some u => exact fits_of_site hsite hv
  | @kind es k hold _ hp =>
    subst hp hold
    have hes := fits_of_site hsite hv
    change Fits ((lookup "kind" es).getD .null)
    cases hkind : lookup "kind" es with
    | none => rfl
    | some u => exact hes.lookup hkind

/-- A reading that follows the parts of a value that fits succeeds, or ends with a defect. -/
theorem Follows.defect_of_fits {α : Type} {x : Loaded α} {r : Role} {v : Value} {w : Place}
    {e : LoadError} (h : Follows x (parts r w v)) (hv : Fits v) (he : x = .error e) :
    ∃ d, e = .defect d := by
  rw [Follows, he] at h
  obtain ⟨p, hp, hfault⟩ := List.exists_of_findSome?_eq_some h.symm
  exact fault_of_fits hv hp hfault

/-- The reading of a document that fits succeeds, or ends with a defect. -/
theorem ofDocument_ok_or_defect {entries : List (Value × Value)} (h : Fits (.object entries)) :
    (∃ c, Catalog.ofDocument entries = .ok c) ∨
      ∃ d, Catalog.ofDocument entries = .error (.defect d) := by
  cases hx : Catalog.ofDocument entries with
  | ok c => exact .inl ⟨c, rfl⟩
  | error e =>
    suffices hdefect : ∃ d, e = .defect d by
      obtain ⟨d, rfl⟩ := hdefect
      exact .inr ⟨d, rfl⟩
    rw [Catalog.ofDocument.eq_def] at hx
    split at hx
    · next vs hvs =>
      have hfollows := follows_reading hvs
      rw [Catalog.ofDocument, hvs] at hfollows
      exact hfollows.defect_of_fits (h.lookup hvs) hx
    · exact ⟨_, (Except.error.inj hx).symm⟩

/-- **A document is loaded exactly if it is a catalog, as the catalog that it is, and otherwise
refused for a defect**: it is a catalog if it has a list of entries that are definitions, and its
definitions are these entries in their order. -/
theorem ofDocument_verdict {entries : List (Value × Value)} (h : Fits (.object entries)) :
    ((∃ c, Catalog.ofDocument entries = .ok c) ↔
        ∃ vs, lookup "types" entries = some (.list vs) ∧ ∀ v ∈ vs, ∃ d, IsDefinition v d) ∧
      (∀ c, Catalog.ofDocument entries = .ok c ↔ IsCatalog entries c) ∧
      ((∀ c, ¬ IsCatalog entries c) → ∃ d, Catalog.ofDocument entries = .error (.defect d)) := by
  refine ⟨?_, fun c => ofDocument_eq_ok, fun hnone => ?_⟩
  · simp only [ofDocument_eq_ok, IsCatalog, ← Related.exists_forall₂_iff]
    exact ⟨fun ⟨c, vs, hvs, hc⟩ => ⟨vs, hvs, c, hc⟩, fun ⟨vs, hvs, c, hc⟩ => ⟨c, vs, hvs, hc⟩⟩
  · refine (ofDocument_ok_or_defect h).resolve_left ?_
    rintro ⟨c, hc⟩
    exact hnone c (ofDocument_eq_ok.mp hc)

/-- The document of a request that has a body and no other members. -/
theorem request_with_body_isCatalog :
    let entries := [(.string "types", .list [.object [(.string "name", .string "Bulk"),
      (.string "kind", .string "request"), (.string "path", .null), (.string "body", .object
        [(.string "kind", .string "array_of"), (.string "of", .string "Operation")])]])]
    Fits (.object entries) ∧ IsCatalog entries
      [.request ⟨"Bulk", [], []⟩ none none (some (.type (.array (.reference "Operation" []))))] :=
  ⟨by rfl, ((ofDocument_verdict (by rfl)).2.1 _).mp (by rfl)⟩

end Document

end TypeCatalog
