import TypeCatalog.Catalog.File
import TypeCatalog.Proofs.Document.Acceptance
import TypeCatalog.Proofs.Spelling.Usual

/-!
# Proofs/Spelling/Representation — what becomes of the spelling of a representation

A file is read once as a value and once as a document that keeps its tokens; the first is what the
second forgets (`erase_ofFile`).  A member of an enumeration whose representation is a token for a
number or a truth value is represented by the text of the value, and **that is the token itself
exactly if the token is a usual spelling** (`representation_eq_token_iff`).
-/

namespace TypeCatalog

open Document

namespace Spelled

/-! ## Files -/

/-- Reads YAML text, as `Value.ofYaml` does. -/
def ofYaml (text : String) : Loaded Spelled :=
  match Yaml.readSpelled text with
  | .ok s => .ok s
  | .error fault => .error (.ofFault fault)

/-- Reads JSON text, or YAML text if it is not JSON, as `Value.ofJsonOrYaml` does. -/
def ofJsonOrYaml (text : String) : Loaded Spelled :=
  match Json.readSpelled (Json.inMarking text) with
  | .ok s => .ok s
  | .error .malformed => ofYaml text
  | .error .oversizedInteger => .error (.source .oversizedInteger)

/-- The document of a file, as `Value.ofFile` reads it. -/
def ofFile (path : Path) (bytes : ByteArray) : Loaded Spelled :=
  match Text.fileText? bytes with
  | none => .error (.source .encoding)
  | some text => if path.suffix ∈ yamlSuffixes then ofYaml text else ofJsonOrYaml text

theorem erase_ofYaml (text : String) : Value.ofYaml text = (ofYaml text).map erase := by
  rw [Value.ofYaml, ofYaml, Yaml.erase_readSpelled]
  cases Yaml.readSpelled text <;> rfl

theorem erase_ofJsonOrYaml (text : String) :
    Value.ofJsonOrYaml text = (ofJsonOrYaml text).map erase := by
  rw [Value.ofJsonOrYaml, ofJsonOrYaml, Json.erase_readSpelled]
  cases Json.readSpelled (Json.inMarking text) with
  | ok s => rfl
  | error e =>
    cases e with
    | malformed => exact erase_ofYaml text
    | oversizedInteger => rfl

/-- **The value of a file is what is left of its tokens.** -/
theorem erase_ofFile (path : Path) (bytes : ByteArray) :
    Value.ofFile path bytes = (ofFile path bytes).map erase := by
  rw [Value.ofFile, ofFile]
  cases Text.fileText? bytes with
  | none => rfl
  | some text =>
    dsimp only
    split
    · exact erase_ofYaml text
    · exact erase_ofJsonOrYaml text

theorem holds_ofYaml {text : String} {s : Spelled} (h : ofYaml text = .ok s) :
    s.Holds ReadsUsually := by
  rw [ofYaml] at h
  split at h
  · next t hread =>
    cases h
    exact (Yaml.holds_readSpelled hread).mono fun _ _ => Yaml.IsAtom.readsUsually
  · cases h

theorem holds_ofJsonOrYaml {text : String} {s : Spelled} (h : ofJsonOrYaml text = .ok s) :
    s.Holds ReadsUsually := by
  rw [ofJsonOrYaml] at h
  split at h
  · next t hread =>
    cases h
    exact (Json.holds_readSpelled hread).mono fun _ _ => Json.IsAtom.readsUsually
  · exact holds_ofYaml h
  · cases h

/-- **Every token of a file is read as usual, if it is spelled as usual.** -/
theorem holds_ofFile {path : Path} {bytes : ByteArray} {s : Spelled}
    (h : ofFile path bytes = .ok s) : s.Holds ReadsUsually := by
  rw [ofFile] at h
  split at h
  · cases h
  · split at h
    · exact holds_ofYaml h
    · exact holds_ofJsonOrYaml h

end Spelled

/-! ## Representations -/

section Representation

variable {path : Path} {bytes : ByteArray} {catalog : Catalog}

/-- A file of a catalog is one of an object that has it as its document. -/
theorem exists_spelled_of_ofFile (h : Catalog.ofFile path bytes = .ok catalog) :
    ∃ s entries, Spelled.ofFile path bytes = .ok s ∧ s.erase = .object entries ∧
      IsCatalog entries catalog := by
  obtain ⟨entries, hread, hload⟩ := Catalog.ofFile_eq_ok.mp h
  rw [Spelled.erase_ofFile] at hread
  cases hs : Spelled.ofFile path bytes with
  | error e =>
    rw [hs] at hread
    cases hread
  | ok s =>
    rw [hs] at hread
    exact ⟨s, entries, rfl, Except.ok.inj hread, Loaded.ofDocument_eq_ok.mp hload⟩

/-- **A member is represented by the text of the value that its token is read as**: by the token
itself exactly if that is a usual spelling. -/
theorem representation_eq_token_iff (h : Catalog.ofFile path bytes = .ok catalog) :
    ∃ s, Spelled.ofFile path bytes = .ok s ∧ Value.ofFile path bytes = .ok s.erase ∧
      ∀ (i j : ℕ) (name : String) (members : List Member) (m : Member) (token : String) (v : Value),
        catalog[i]? = some (.enumeration name members) → members[j]? = some m →
        s.follow? (toRepresentation i j) = some (.scalar token v) →
        IsRepresentation v m.representation ∧ (m.representation = token ↔ IsUsual token v) := by
  obtain ⟨s, entries, hs, herase, hcatalog⟩ := exists_spelled_of_ofFile h
  refine ⟨s, hs, by rw [Spelled.erase_ofFile, hs]; rfl, ?_⟩
  intro i j name members m token v hdefinition hmember hfollow
  have hvalue := Spelled.follow?_erase hfollow
  rw [herase] at hvalue
  have hrepresentation := isRepresentation_of_follow? hcatalog hdefinition hmember hvalue
  cases (Spelled.holds_ofFile hs).follow? hfollow with
  | scalar hreads => exact ⟨hrepresentation, hreads.representation_eq_iff hrepresentation⟩

end Representation

/-! ## A file with two integers -/

/-- Zero with a sign, and twelve. -/
def signedZeroFile : ByteArray :=
  ("\x7b\"types\":[\x7b\"kind\":\"enum\",\"name\":\"E\",\"members\":[" ++
    "\x7b\"name\":\"a\",\"stringRepresentation\":-0\x7d," ++
    "\x7b\"name\":\"b\",\"stringRepresentation\":12\x7d]\x7d]\x7d").toUTF8

/-- The members of an enumeration. -/
def membersAt (i : ℕ) (catalog : Catalog) : Option (List Member) :=
  match catalog[i]? with
  | some (.enumeration _ members) => some members
  | _ => none

/-- The token and the value of an integer. -/
def Spelled.integerAt (steps : List Step) (s : Spelled) : Option (String × ℤ) :=
  match s.follow? steps with
  | some (.scalar token (.int n)) => some (token, n)
  | _ => none

theorem exists_enumeration_of_membersAt {i : ℕ} {catalog : Catalog} {members : List Member}
    (h : membersAt i catalog = some members) :
    ∃ name, catalog[i]? = some (.enumeration name members) := by
  rw [membersAt] at h
  split at h
  · next name _ hdefinition =>
    cases h
    exact ⟨name, hdefinition⟩
  · cases h

theorem Spelled.follow?_of_integerAt {steps : List Step} {s : Spelled} {token : String} {n : ℤ}
    (h : s.integerAt steps = some (token, n)) :
    s.follow? steps = some (.scalar token (.int n)) := by
  rw [integerAt] at h
  split at h
  · next hfollow =>
    cases h
    exact hfollow
  · cases h

theorem exists_ok_of_bind {α β : Type} {x : Loaded α} {f : α → Option β} {b : β}
    (h : x.toOption.bind f = some b) : ∃ a, x = .ok a ∧ f a = some b := by
  cases x with
  | error e => cases h
  | ok a => exact ⟨a, rfl, h⟩

/-- What the file is read as: both integers with their tokens, and the catalog. -/
theorem exists_signedZeroFile : ∃ catalog s name,
    Catalog.ofFile (.ofText "catalog.json") signedZeroFile = .ok catalog ∧
      Spelled.ofFile (.ofText "catalog.json") signedZeroFile = .ok s ∧
      catalog[0]? = some (.enumeration name [⟨"a", "0"⟩, ⟨"b", "12"⟩]) ∧
      s.follow? (toRepresentation 0 0) = some (.scalar "-0" (.int 0)) ∧
      s.follow? (toRepresentation 0 1) = some (.scalar "12" (.int 12)) := by
  obtain ⟨c, hc, hmembers⟩ := exists_ok_of_bind
    (show (Catalog.ofFile (.ofText "catalog.json") signedZeroFile).toOption.bind (membersAt 0) =
      some [⟨"a", "0"⟩, ⟨"b", "12"⟩] by decide +kernel)
  obtain ⟨s, hs, htokens⟩ := exists_ok_of_bind
    (show (Spelled.ofFile (.ofText "catalog.json") signedZeroFile).toOption.bind
      (fun s => some (s.integerAt (toRepresentation 0 0), s.integerAt (toRepresentation 0 1))) =
        some (some ("-0", 0), some ("12", 12)) by decide +kernel)
  obtain ⟨hzero, htwelve⟩ := Prod.mk.inj (Option.some.inj htokens)
  obtain ⟨name, hdefinition⟩ := exists_enumeration_of_membersAt hmembers
  exact ⟨c, s, name, hc, hs, hdefinition, Spelled.follow?_of_integerAt hzero,
    Spelled.follow?_of_integerAt htwelve⟩

/-- Zero with a sign is no usual spelling, twelve is one. -/
theorem signedZeroFile_spellings :
    ∃ c s, Catalog.ofFile (.ofText "catalog.json") signedZeroFile = .ok c ∧
      Spelled.ofFile (.ofText "catalog.json") signedZeroFile = .ok s ∧
      s.follow? (toRepresentation 0 0) = some (.scalar "-0" (.int 0)) ∧
      ¬ IsUsual "-0" (.int 0) ∧
      s.follow? (toRepresentation 0 1) = some (.scalar "12" (.int 12)) ∧
      IsUsual "12" (.int 12) := by
  obtain ⟨c, s, name, hc, hs, hdefinition, hzero, htwelve⟩ := exists_signedZeroFile
  obtain ⟨s', hs', -, hspelling⟩ := representation_eq_token_iff hc
  obtain rfl := Except.ok.inj (hs.symm.trans hs')
  have hminus := (hspelling 0 0 name _ ⟨"a", "0"⟩ "-0" (.int 0) hdefinition rfl hzero).2
  have hplus := (hspelling 0 1 name _ ⟨"b", "12"⟩ "12" (.int 12) hdefinition rfl htwelve).2
  exact ⟨c, s, hc, hs, hzero, fun husual => absurd (hminus.mpr husual) (by decide), htwelve,
    hplus.mp rfl⟩

/-- A sign before zero is lost. -/
theorem signed_zero_not_kept :
    ¬ ∀ (path : Path) (bytes : ByteArray) (catalog : Catalog) (s : Spelled),
      Catalog.ofFile path bytes = .ok catalog → Spelled.ofFile path bytes = .ok s →
      ∀ (i j : ℕ) (name : String) (members : List Member) (m : Member) (token : String) (v : Value),
        catalog[i]? = some (.enumeration name members) → members[j]? = some m →
        s.follow? (toRepresentation i j) = some (.scalar token v) → m.representation = token := by
  intro hkept
  obtain ⟨c, s, name, hc, hs, hdefinition, hzero, -⟩ := exists_signedZeroFile
  exact absurd (hkept _ _ c s hc hs 0 0 name _ ⟨"a", "0"⟩ "-0" (.int 0) hdefinition rfl hzero)
    (by decide)

end TypeCatalog
