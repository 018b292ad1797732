import TypeCatalog.Proofs.Json.NumberText
import TypeCatalog.Proofs.Spelling.Tree

/-!
# Proofs/Spelling/Json — the tokens of JSON texts

`Json.readSpelled` reads a text as `Json.read` does and keeps the tokens of numbers and words.  What
it forgets gives the value (`erase_readSpelled`), and **every token is a word or a number that is
read as the value beside it** (`holds_readSpelled`).
-/

namespace TypeCatalog.Json

/-- What has been read of a text when something is left of it. -/
def tokenBefore (text rest : List Char) : String :=
  String.ofList (text.take (text.length - rest.length))

/-- A word or a number by its token. -/
def spelledAtom (text : List Char) : Except ReadError (Spelled × List Char) :=
  match word? text with
  | some (v, rest) => .ok (.scalar (tokenBefore text rest) v, rest)
  | none => (number text).map fun (v, rest) => (.scalar (tokenBefore text rest) v, rest)

mutual
/-- Reads a value, as `Json.value` does. -/
def spelled : Nat → List Char → Except ReadError (Spelled × List Char)
  | 0, _ => .error .malformed
  | fuel + 1, text =>
    match text with
    | '"' :: rest =>
      match stringBody rest with
      | some (s, after) => .ok (.other (.string (String.ofList s)), after)
      | none => .error .malformed
    | '[' :: rest =>
      match skipSpace rest with
      | ']' :: after => .ok (.list [], after)
      | inner => (spelledItems fuel inner).map fun (vs, after) => (.list vs, after)
    | '\x7b' :: rest =>
      match skipSpace rest with
      | '\x7d' :: after => .ok (.object [], after)
      | inner => (spelledEntries fuel inner []).map fun (es, after) => (.object es, after)
    | _ => spelledAtom text

/-- Reads the items of a list, as `Json.items` does. -/
def spelledItems : Nat → List Char → Except ReadError (List Spelled × List Char)
  | 0, _ => .error .malformed
  | fuel + 1, text =>
    match spelled fuel text with
    | .error e => .error e
    | .ok (v, rest) =>
      match skipSpace rest with
      | ']' :: after => .ok ([v], after)
      | ',' :: more => (spelledItems fuel (skipSpace more)).map fun (vs, after) => (v :: vs, after)
      | _ => .error .malformed

/-- Reads the entries of an object, as `Json.entries` does. -/
def spelledEntries : Nat → List Char → List (Value × Spelled) →
    Except ReadError (List (Value × Spelled) × List Char)
  | 0, _, _ => .error .malformed
  | fuel + 1, text, sofar =>
    match text with
    | '"' :: rest =>
      match stringBody rest with
      | none => .error .malformed
      | some (key, rest) =>
        match skipSpace rest with
        | ':' :: rest =>
          match spelled fuel (skipSpace rest) with
          | .error e => .error e
          | .ok (v, rest) =>
            let sofar := Spelled.insert sofar (.string (String.ofList key)) v
            match skipSpace rest with
            | '\x7d' :: after => .ok (sofar, after)
            | ',' :: more => spelledEntries fuel (skipSpace more) sofar
            | _ => .error .malformed
        | _ => .error .malformed
    | _ => .error .malformed
end

/-- Reads a whole text, as `Json.read` does. -/
def readSpelled (text : String) : Except ReadError Spelled :=
  let chars := text.toList
  match spelled (chars.length + 1) (skipSpace chars) with
  | .error e => .error e
  | .ok (s, rest) => if (skipSpace rest).isEmpty then .ok s else .error .malformed

/-! ## Values -/

/-- The reader of spelled values follows the reader of values, with so much fuel. -/
structure Erases (fuel : ℕ) : Prop where
  value (text : List Char) :
    value fuel text = (spelled fuel text).map fun (s, rest) => (s.erase, rest)
  items (text : List Char) :
    items fuel text = (spelledItems fuel text).map fun (ss, rest) => (Spelled.eraseAll ss, rest)
  entries (text : List Char) (sofar : List (Value × Spelled)) :
    entries fuel text (Spelled.eraseEntries sofar) =
      (spelledEntries fuel text sofar).map fun (es, rest) => (Spelled.eraseEntries es, rest)

theorem erase_spelledAtom (text : List Char) :
    (match word? text with
      | some found => .ok found
      | none => number text) = (spelledAtom text).map fun (s, rest) => (s.erase, rest) := by
  rw [spelledAtom]
  cases word? text with
  | some found => rfl
  | none => cases number text <;> rfl

section Succ

variable {fuel : ℕ} (h : Erases fuel)
include h

theorem Erases.value_succ (text : List Char) : Json.value (fuel + 1) text =
    (spelled (fuel + 1) text).map fun (s, rest) => (s.erase, rest) := by
  rw [Json.value.eq_def]
  dsimp only
  split
  · next rest =>
    rw [spelled]
    cases stringBody rest <;> rfl
  · next rest =>
    rw [spelled]
    generalize skipSpace rest = inner
    split
    · rfl
    · simp only [h.items]
      cases spelledItems fuel inner <;> rfl
  · next rest =>
    rw [spelled]
    generalize skipSpace rest = inner
    split
    · rfl
    · have hentries := h.entries inner []
      rw [Spelled.eraseEntries] at hentries
      simp only [hentries]
      cases spelledEntries fuel inner [] <;> rfl
  · next hquote hbracket hbrace =>
    rw [spelled]
    · exact erase_spelledAtom text
    · exact hquote
    · exact hbracket
    · exact hbrace

theorem Erases.items_succ (text : List Char) : Json.items (fuel + 1) text =
    (spelledItems (fuel + 1) text).map fun (ss, rest) => (Spelled.eraseAll ss, rest) := by
  cases hs : spelled fuel text with
  | error e =>
    have hvalue : Json.value fuel text = .error e := by rw [h.value, hs]; rfl
    simp only [Json.items, spelledItems, hvalue, hs, Except.map]
  | ok found =>
    obtain ⟨s, rest⟩ := found
    have hvalue : Json.value fuel text = .ok (s.erase, rest) := by rw [h.value, hs]; rfl
    simp only [Json.items, spelledItems, hvalue, hs]
    generalize skipSpace rest = rest
    split
    · rfl
    · next more =>
      rw [h.items]
      change _ = Except.map _ (Except.map _ (spelledItems fuel (skipSpace more)))
      cases spelledItems fuel (skipSpace more) <;> rfl
    · simp only [Except.map]

/-- After a key and its colon. -/
theorem Erases.entry (text key : List Char) (sofar : List (Value × Spelled)) :
    (match Json.value fuel text with
      | .error e => Except.error e
      | .ok (v, rest) =>
        let sofar := Value.insert (Spelled.eraseEntries sofar) (.string (String.ofList key)) v
        match skipSpace rest with
        | '\x7d' :: after => .ok (sofar, after)
        | ',' :: more => Json.entries fuel (skipSpace more) sofar
        | _ => .error .malformed) =
      (match spelled fuel text with
        | .error e => Except.error e
        | .ok (v, rest) =>
          let sofar := Spelled.insert sofar (.string (String.ofList key)) v
          match skipSpace rest with
          | '\x7d' :: after => .ok (sofar, after)
          | ',' :: more => spelledEntries fuel (skipSpace more) sofar
          | _ => .error .malformed).map fun (es, rest) => (Spelled.eraseEntries es, rest) := by
  cases hs : spelled fuel text with
  | error e =>
    have hvalue : Json.value fuel text = .error e := by rw [h.value, hs]; rfl
    rw [hvalue]
    rfl
  | ok found =>
    obtain ⟨s, rest⟩ := found
    have hvalue : Json.value fuel text = .ok (s.erase, rest) := by rw [h.value, hs]; rfl
    simp only [hvalue, ← Spelled.eraseEntries_insert]
    generalize skipSpace rest = rest
    split
    · rfl
    · exact h.entries _ _
    · rfl

theorem Erases.entries_succ (text : List Char) (sofar : List (Value × Spelled)) :
    Json.entries (fuel + 1) text (Spelled.eraseEntries sofar) =
      (spelledEntries (fuel + 1) text sofar).map fun (es, rest) =>
        (Spelled.eraseEntries es, rest) := by
  rw [Json.entries.eq_def]
  dsimp only
  split
  · next rest =>
    rw [spelledEntries]
    cases stringBody rest with
    | none => rfl
    | some found =>
      obtain ⟨key, rest⟩ := found
      dsimp only
      generalize skipSpace rest = rest
      split
      · exact h.entry _ key sofar
      · simp only [Except.map]
  · next hquote =>
    rw [spelledEntries]
    · rfl
    · exact hquote

end Succ

theorem erases (fuel : ℕ) : Erases fuel := by
  induction fuel with
  | zero => exact ⟨fun _ => rfl, fun _ => rfl, fun _ _ => rfl⟩
  | succ fuel ih => exact ⟨ih.value_succ, ih.items_succ, ih.entries_succ⟩

/-- **What a text is read as is what its tokens are forgotten to.** -/
theorem erase_readSpelled (text : String) : read text = (readSpelled text).map Spelled.erase := by
  rw [read, readSpelled, (erases _).value]
  cases spelled (text.toList.length + 1) (skipSpace text.toList) with
  | error e => rfl
  | ok found =>
    obtain ⟨s, rest⟩ := found
    dsimp only [Except.map]
    split <;> rfl

/-! ## Tokens -/

/-- A token is a word, or a number that ends where something else begins. -/
inductive IsAtom (token : String) (v : Value) : Prop
  | word : (token, v) ∈ words → IsAtom token v
  | number {rest : List Char} : EndsValue rest →
      Json.number (token.toList ++ rest) = .ok (v, rest) → IsAtom token v

theorem tokenBefore_append (token rest : List Char) :
    tokenBefore (token ++ rest) rest = String.ofList token := by
  rw [tokenBefore, List.length_append, Nat.add_sub_cancel, List.take_left]

/-- What is read of a text is an atom, if something else begins after it. -/
theorem isAtom_of_spelledAtom (text : List Char) :
    Ensures (fun r => EndsValue r.2 → r.1.Holds IsAtom) (fun _ => True) (spelledAtom text) := by
  rw [spelledAtom]
  split
  · next v rest hword =>
    obtain ⟨⟨w, u⟩, hentry, hfound⟩ := List.exists_of_findSome?_eq_some hword
    dsimp only at hfound
    split at hfound
    · next hprefix =>
      obtain ⟨rfl, rfl⟩ := Prod.mk.inj (Option.some.inj hfound)
      obtain ⟨rest, rfl⟩ := List.isPrefixOf_iff_prefix.mp hprefix
      have hrest : (w.toList ++ rest).drop w.length = rest := by
        rw [← String.length_toList, List.drop_left]
      rw [hrest, tokenBefore_append, String.ofList_toList]
      exact fun _ => .scalar (.word hentry)
    · cases hfound
  · cases hnumber : number text with
    | error e => trivial
    | ok found =>
      obtain ⟨v, rest⟩ := found
      obtain ⟨token, rfl⟩ := ((reads_number text).of_ok hnumber).2
      refine fun hends => .scalar (.number hends ?_)
      rwa [tokenBefore_append, String.toList_ofList]

/-- The tokens that are read with so much fuel are atoms. -/
structure ReadsAtoms (fuel : ℕ) : Prop where
  value (text : List Char) : Ensures (fun r => EndsValue r.2 → r.1.Holds IsAtom) (fun _ => True)
    (spelled fuel text)
  items (text : List Char) : Ensures (fun r => ∀ s ∈ r.1, s.Holds IsAtom) (fun _ => True)
    (spelledItems fuel text)
  entries (text : List Char) {sofar : List (Value × Spelled)}
    (h : ∀ e ∈ sofar, e.2.Holds IsAtom) : Ensures (fun r => ∀ e ∈ r.1, e.2.Holds IsAtom)
      (fun _ => True) (spelledEntries fuel text sofar)

section Atoms

variable {fuel : ℕ} (h : ReadsAtoms fuel)
include h

theorem ReadsAtoms.value_succ (text : List Char) :
    Ensures (fun r => EndsValue r.2 → r.1.Holds IsAtom) (fun _ => True)
      (spelled (fuel + 1) text) := by
  rw [spelled.eq_def]
  dsimp only
  split
  · split
    · exact fun _ => .other _
    · trivial
  · split
    · exact fun _ => .list nofun
    · exact (h.items _).map fun _ hitems _ => .list hitems
  · split
    · exact fun _ => .object nofun
    · exact (h.entries _ (List.forall_mem_nil _)).map fun _ hentries _ => .object hentries
  · exact isAtom_of_spelledAtom text

theorem ReadsAtoms.items_succ (text : List Char) :
    Ensures (fun r => ∀ s ∈ r.1, s.Holds IsAtom) (fun _ => True)
      (spelledItems (fuel + 1) text) := by
  rw [spelledItems]
  obtain ⟨⟨s, rest⟩, hx, hs⟩ | ⟨e, hx, -⟩ := (h.value text).ok_or_error
  · simp only [hx]
    split
    · next hrest =>
      have hends : EndsValue rest := endsValue_of_skipSpace (by rw [hrest]; simp)
      exact List.forall_mem_singleton.mpr (hs hends)
    · next more hrest =>
      have hends : EndsValue rest := endsValue_of_skipSpace (by rw [hrest]; simp)
      exact (h.items _).map fun r hr => List.forall_mem_cons.mpr ⟨hs hends, hr⟩
    · trivial
  · simp only [hx]
    trivial

theorem ReadsAtoms.entries_succ (text : List Char) {sofar : List (Value × Spelled)}
    (hsofar : ∀ e ∈ sofar, e.2.Holds IsAtom) : Ensures (fun r => ∀ e ∈ r.1, e.2.Holds IsAtom)
      (fun _ => True) (spelledEntries (fuel + 1) text sofar) := by
  rw [spelledEntries.eq_def]
  dsimp only
  split
  case h_2 => trivial
  next rest =>
  split
  · trivial
  next key rest hkey =>
  split
  case h_2 => trivial
  next rest hcolon =>
  obtain ⟨⟨s, rest⟩, hx, hs⟩ | ⟨e, hx, -⟩ := (h.value (skipSpace rest)).ok_or_error
  · simp only [hx]
    split
    · next hrest =>
      have hends : EndsValue rest := endsValue_of_skipSpace (by rw [hrest]; simp)
      exact Spelled.forall_mem_insert hsofar (hs hends)
    · next more hrest =>
      have hends : EndsValue rest := endsValue_of_skipSpace (by rw [hrest]; simp)
      exact h.entries _ (Spelled.forall_mem_insert hsofar (hs hends))
    · trivial
  · simp only [hx]
    trivial

end Atoms

theorem readsAtoms (fuel : ℕ) : ReadsAtoms fuel := by
  induction fuel with
  | zero => exact ⟨fun _ => trivial, fun _ => trivial, fun _ _ _ => trivial⟩
  | succ fuel ih => exact ⟨ih.value_succ, ih.items_succ, fun _ _ => ih.entries_succ _⟩

/-- **Every token of a text is an atom.** -/
theorem holds_readSpelled {text : String} {s : Spelled} (h : readSpelled text = .ok s) :
    s.Holds IsAtom := by
  rw [readSpelled] at h
  obtain ⟨⟨t, rest⟩, hx, hs⟩ | ⟨e, hx, -⟩ :=
    ((readsAtoms (text.toList.length + 1)).value (skipSpace text.toList)).ok_or_error
  · simp only [hx] at h
    split at h
    · next hempty =>
      cases h
      exact hs (endsValue_of_skipSpace (by rw [List.isEmpty_iff.mp hempty]; nofun))
    · cases h
  · simp only [hx] at h
    cases h

end TypeCatalog.Json
