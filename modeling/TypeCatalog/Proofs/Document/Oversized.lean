import TypeCatalog.Proofs.Document.FirstDefect
import TypeCatalog.Proofs.Document.Verdict

/-!
# Proofs/Document/Oversized — integers of a document that are too long

A value with an integer of too many digits cannot be written (`printed?_eq_none`), and a document is
read without defect up to such an integer exactly if it is neither loaded nor refused
(`ofDocument_eq_source`).
-/

namespace TypeCatalog

namespace Value

mutual
/-- Of a value that can be written all integers are short enough. -/
theorem fits_of_printed? : (v : Value) → (printed? v).isSome → v.fits
  | null, _ => rfl
  | bool _, _ => rfl
  | int n, h => by
    rw [printed?, Number.integerText?] at h
    rw [fits, decide_eq_true_iff]
    by_contra hlong
    rw [if_pos (Nat.lt_of_not_le hlong)] at h
    cases h
  | float _, _ => rfl
  | string _, _ => rfl
  | list items, h => by
    rw [printed?, Option.isSome_map] at h
    exact allFit_of_printedItems? items h
  | object entries, h => by
    rw [printed?, Option.isSome_map] at h
    exact entriesFit_of_printedEntries? entries h
  | day _, _ => rfl
  | moment _, _ => rfl
  | bytes _, _ => rfl
  | set [], _ => rfl
  | set (v :: vs), h => by
    rw [printed?, Option.isSome_map] at h
    exact allFit_of_printedItems? (v :: vs) h
  | pair a b, h => by
    obtain ⟨t, h⟩ := Option.isSome_iff_exists.mp h
    rw [printed?] at h
    obtain ⟨s, hs, h⟩ := Option.bind_eq_some_iff.mp h
    obtain ⟨u, hu, -⟩ := Option.bind_eq_some_iff.mp h
    rw [fits, fits_of_printed? a (Option.isSome_of_eq_some hs),
      fits_of_printed? b (Option.isSome_of_eq_some hu), Bool.and_self]

theorem allFit_of_printedItems? : (vs : List Value) → (printedItems? vs).isSome → allFit vs
  | [], _ => rfl
  | v :: vs, h => by
    obtain ⟨t, h⟩ := Option.isSome_iff_exists.mp h
    rw [printedItems?] at h
    obtain ⟨s, hs, h⟩ := Option.bind_eq_some_iff.mp h
    obtain ⟨u, hu, -⟩ := Option.bind_eq_some_iff.mp h
    rw [allFit, fits_of_printed? v (Option.isSome_of_eq_some hs),
      allFit_of_printedItems? vs (Option.isSome_of_eq_some hu), Bool.and_self]

theorem entriesFit_of_printedEntries? :
    (es : List (Value × Value)) → (printedEntries? es).isSome → entriesFit es
  | [], _ => rfl
  | (k, v) :: es, h => by
    obtain ⟨t, h⟩ := Option.isSome_iff_exists.mp h
    rw [printedEntries?] at h
    obtain ⟨s, hs, h⟩ := Option.bind_eq_some_iff.mp h
    obtain ⟨u, hu, h⟩ := Option.bind_eq_some_iff.mp h
    obtain ⟨us, hus, -⟩ := Option.bind_eq_some_iff.mp h
    rw [entriesFit, fits_of_printed? k (Option.isSome_of_eq_some hs),
      fits_of_printed? v (Option.isSome_of_eq_some hu),
      entriesFit_of_printedEntries? es (Option.isSome_of_eq_some hus), Bool.and_self, Bool.and_self]
end

/-- **A value can be written exactly if its integers are short enough.** -/
theorem printed?_eq_none {v : Value} : v.printed? = none ↔ ¬ Fits v := by
  rw [← Option.not_isSome_iff_eq_none]
  exact not_congr ⟨fits_of_printed? v, isSome_printed? v⟩

end Value

namespace Document

open Value Loaded

/-- A value has an integer that is too long, and its digits are needed: it stands for an
enumeration's member, or is a kind that is not known and has to be told. -/
inductive Unwritable : Role → Option Value → Prop
  | representation {n : Int} : ¬ Fits (.int n) → Unwritable .representation (some (.int n))
  | expressionKind {v : Value} : ¬ Fits v → Unwritable .expressionKind (some v)
  | definitionKind {v : Value} : ¬ Fits v → Unwritable .definitionKind (some v)
  | orNull {r : Role} {v : Value} : v ≠ .null → Unwritable r (some v) →
      Unwritable (.orNull r) (some v)

theorem kindRefusal_eq_source {told : String → Defect} {kind : Option Value} {e : SourceError} :
    Role.kindRefusal told kind = .source e ↔
      e = .oversizedInteger ∧ ∃ v, kind = some v ∧ ¬ Fits v := by
  rw [Role.kindRefusal]
  constructor
  · intro h
    cases htext : (kind.getD .null).printed? with
    | some t =>
      rw [htext] at h
      cases h
    | none =>
      rw [htext] at h
      have hkind := printed?_eq_none.mp htext
      cases kind with
      | none => exact absurd rfl hkind
      | some v => exact ⟨(LoadError.source.inj h).symm, v, rfl, hkind⟩
  · rintro ⟨rfl, v, rfl, hv⟩
    rw [Option.getD_some, printed?_eq_none.mpr hv]
    rfl

theorem kindOf_of_not_fits {α : Type} {words : List (String × α)} {v : Value} (h : ¬ Fits v) :
    kindOf words (some v) = none := by
  cases v with
  | string s => exact absurd rfl h
  | _ => rfl

theorem unwritable_of_refusal {r : Role} {w : Place} {v : Option Value} {e : SourceError}
    (hv : r.accepts v = false) (h : r.refusal w v = .source e) :
    e = .oversizedInteger ∧ Unwritable r v := by
  induction r with
  | representation =>
    cases v with
    | none => cases h
    | some v =>
      cases v with
      | int n =>
        refine ⟨(LoadError.source.inj h).symm, .representation fun hn => ?_⟩
        rw [Role.accepts, hn.integerText?] at hv
        cases hv
      | _ => cases h
  | expressionKind =>
    obtain ⟨he, u, rfl, hu⟩ := kindRefusal_eq_source.mp h
    exact ⟨he, .expressionKind hu⟩
  | definitionKind =>
    obtain ⟨he, u, rfl, hu⟩ := kindRefusal_eq_source.mp h
    exact ⟨he, .definitionKind hu⟩
  | orNull r ih =>
    obtain ⟨he, hr⟩ := ih (Role.accepts_of_orNull hv) h
    obtain ⟨u, rfl⟩ : ∃ u, v = some u := by cases hr <;> exact ⟨_, rfl⟩
    refine ⟨he, .orNull ?_ hr⟩
    rintro rfl
    cases hv
  | _ => cases h

theorem Unwritable.refusal {r : Role} {v : Option Value} (h : Unwritable r v) (w : Place) :
    r.accepts v = false ∧ r.refusal w v = .source .oversizedInteger := by
  induction h with
  | @representation n hn =>
    refine ⟨?_, rfl⟩
    rw [Role.accepts, ← Bool.not_eq_true]
    exact fun hsome => hn (fits_of_printed? (.int n) hsome)
  | expressionKind hv =>
    refine ⟨?_, kindRefusal_eq_source.mpr ⟨rfl, _, rfl, hv⟩⟩
    rw [Role.accepts, kindOf_of_not_fits hv, Option.isSome_none]
  | definitionKind hv =>
    refine ⟨?_, kindRefusal_eq_source.mpr ⟨rfl, _, rfl, hv⟩⟩
    rw [Role.accepts, kindOf_of_not_fits hv, Option.isSome_none]
  | @orNull r v hnull _ ih =>
    refine ⟨?_, ih.2⟩
    rw [Role.accepts]
    · exact ih.1
    · exact fun heq => hnull (Option.some.inj heq)

theorem fault?_eq_source {p : Part} {e : SourceError} :
    p.fault? = some (.source e) ↔ e = .oversizedInteger ∧ Unwritable p.role p.value := by
  constructor
  · intro h
    obtain ⟨hv, hrefusal⟩ := Part.fault?_eq_some h
    exact unwritable_of_refusal hv hrefusal
  · rintro ⟨rfl, h⟩
    obtain ⟨hv, hrefusal⟩ := h.refusal p.place
    rw [Part.fault?, if_neg (Bool.eq_false_iff.mp hv), hrefusal]

/-- The reading of a document comes to an integer that is too long, before any defect. -/
def StopsAtInteger (entries : List (Value × Value)) : Prop :=
  ∃ vs before p after, lookup "types" entries = some (.list vs) ∧
    reading vs = before ++ p :: after ∧ Pass before ∧ Unwritable p.role p.value

/-- **A document that is neither loaded nor refused for a defect stops at an integer.** -/
theorem ofDocument_eq_source {entries : List (Value × Value)} {e : SourceError} :
    Catalog.ofDocument entries = .error (.source e) ↔
      e = .oversizedInteger ∧ StopsAtInteger entries := by
  constructor
  · intro h
    have hx := h
    rw [Catalog.ofDocument.eq_def] at hx
    split at hx
    · next vs hvs =>
      have hfollows := follows_reading hvs
      rw [Follows, h] at hfollows
      obtain ⟨before, p, after, horder, hfault, hpassed⟩ :=
        List.findSome?_eq_some_iff.mp hfollows.symm
      obtain ⟨rfl, hp⟩ := fault?_eq_source.mp hfault
      exact ⟨rfl, vs, before, p, after, hvs, horder, hpassed, hp⟩
    · cases hx
  · rintro ⟨rfl, vs, before, p, after, hvs, horder, hpassed, hp⟩
    have hfollows := follows_reading hvs
    rw [Follows, List.findSome?_eq_some_iff.mpr
      ⟨before, p, after, horder, fault?_eq_source.mpr ⟨rfl, hp⟩, hpassed⟩] at hfollows
    cases hx : Catalog.ofDocument entries with
    | ok c =>
      rw [hx] at hfollows
      cases hfollows
    | error e =>
      rw [hx] at hfollows
      exact congrArg Except.error (Option.some.inj hfollows)

end Document

end TypeCatalog
