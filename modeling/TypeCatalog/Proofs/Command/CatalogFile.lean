import TypeCatalog.Command.Run
import TypeCatalog.Proofs.Document.Knot
import TypeCatalog.Proofs.Document.Oversized
import TypeCatalog.Proofs.Failure
import TypeCatalog.Proofs.Json.Numerals
import TypeCatalog.Proofs.Yaml.ScalarFaults

/-!
# Proofs/Command/CatalogFile — what comes of the bytes of a catalog file

A file is loaded as a catalog or refused for a defect, unless its bytes or its text stop the reading
in one of five ways (`Escapes`): bytes that encode no text; a JSON number, or an integer of a YAML
document where its digits are needed, that is too long; a YAML text with a piece that has no value;
and a type expression of a YAML document that is a part of itself.  Exactly in these cases a run
passes on a failure.
-/

namespace TypeCatalog

/-! ## Files -/

/-- A text is read as YAML: the name of its file asks for it, or it is not JSON. -/
def ReadAsYaml (path : Path) (text : String) : Prop :=
  path.suffix ∈ yamlSuffixes ∨ Json.read (Json.inMarking text) = .error .malformed

/-- **What stops the loading of a file**, other than a defect of the catalog in it. -/
inductive Escapes (path : Path) (bytes : ByteArray) : SourceError → Prop
  /-- The bytes encode no text. -/
  | encoding : (∀ text : String, text.toUTF8 ≠ bytes) → Escapes path bytes .encoding
  /-- The text, read as JSON, has a number with too many digits. -/
  | numeral {text : String} : Text.fileText? bytes = some text → path.suffix ∉ yamlSuffixes →
      Json.read (Json.inMarking text) = .error .oversizedInteger →
      Json.HasLongNumeral text.toList → Escapes path bytes .oversizedInteger
  /-- The text, read as YAML, has a piece without value. -/
  | scalar {text : String} {fault : Yaml.Fault} : Text.fileText? bytes = some text →
      ReadAsYaml path text → Yaml.read text = .error fault → fault ≠ .malformed →
      Yaml.Stops text fault → Escapes path bytes (.scalar fault)
  /-- The text, read as YAML, has an integer with too many digits where they are needed. -/
  | integer {text : String} {entries : List (Value × Value)} :
      Text.fileText? bytes = some text → ReadAsYaml path text →
      Yaml.read text = .ok (.object entries) → Document.StopsAtInteger entries →
      Escapes path bytes .oversizedInteger
  /-- The text, read as YAML, has a knotted document. However far this is unrolled, the first defect
  is further in, and the way there comes back to a node that it has passed. -/
  | endless {text : String} {g : Yaml.Graph} {entries : List (Value × Value)} {d : Defect}
      {w : Place} : Text.fileText? bytes = some text → ReadAsYaml path text →
      Yaml.graph? text = .ok (some g) → g.isKnotted = true → g.value = .object entries →
      Catalog.ofDocument entries = .error (.defect d) → d.isBeyond g = true → d.place? = some w →
      g.ComesBack g.root (.key "types" :: w.steps) → Escapes path bytes .endless

theorem fileText?_eq_none {bytes : ByteArray} :
    Text.fileText? bytes = none ↔ ∀ text : String, text.toUTF8 ≠ bytes := by
  rw [Text.fileText?, Option.map_eq_none_iff, String.fromUTF8?]
  split
  · next hvalid =>
    exact ⟨nofun, fun h => absurd rfl (h (String.fromUTF8 bytes hvalid))⟩
  · next hinvalid =>
    refine iff_of_true rfl ?_
    rintro text rfl
    exact hinvalid text.isValidUTF8

section Source

variable {path : Path} {bytes : ByteArray} {text : String} {e : SourceError}

theorem ofFile_of_json (htext : Text.fileText? bytes = some text)
    (hsuffix : path.suffix ∉ yamlSuffixes) :
    Value.ofFile path bytes = Value.ofJsonOrYaml text := by
  rw [Value.ofFile, htext]
  exact if_neg hsuffix

theorem ofFile_of_yaml (htext : Text.fileText? bytes = some text) (hyaml : ReadAsYaml path text) :
    Value.ofFile path bytes = Value.ofYaml text := by
  by_cases hsuffix : path.suffix ∈ yamlSuffixes
  · rw [Value.ofFile, htext]
    exact if_pos hsuffix
  · rw [ofFile_of_json htext hsuffix, Value.ofJsonOrYaml, hyaml.resolve_left hsuffix]

theorem ofFault_of_ne {fault : Yaml.Fault} (h : fault ≠ .malformed) :
    LoadError.ofFault fault = .source (.scalar fault) := by
  cases fault with
  | malformed => exact absurd rfl h
  | _ => rfl

theorem isYaml_iff : isYaml path text = true ↔ ReadAsYaml path text := by
  rw [isYaml, Bool.or_eq_true, decide_eq_true_iff, ReadAsYaml]
  refine or_congr_right ⟨fun h => ?_, fun h => by rw [h]⟩
  split at h
  · assumption
  · cases h

/-- The graph of a knotted document is that of the text, which is read as YAML. -/
theorem knot?_eq_some {g : Yaml.Graph} : knot? path text = some g ↔
    ReadAsYaml path text ∧ Yaml.graph? text = .ok (some g) ∧ g.isKnotted = true := by
  rw [knot?, Option.ite_none_right_eq_some, isYaml_iff]
  refine and_congr_right fun _ => ?_
  split
  · next g' hg' =>
    rw [hg', Option.ite_none_right_eq_some, Option.some.injEq, Except.ok.injEq, Option.some.injEq]
    exact ⟨fun ⟨hknotted, heq⟩ => ⟨heq, heq ▸ hknotted⟩,
      fun ⟨heq, hknotted⟩ => ⟨heq ▸ hknotted, heq⟩⟩
  · next hne => exact iff_of_false nofun fun h => hne g h.1

/-- A source that is reported of a text is reported of its value, or there is no end to the
reading. -/
theorem ofText_eq_source {e' : LoadError} : e'.ofText path text = .source e ↔
    e' = .source e ∨ e = .endless ∧ ∃ d g, e' = .defect d ∧ knot? path text = some g ∧
      d.isBeyond g = true := by
  cases e' with
  | source e' =>
    refine ⟨.inl, fun h => h.resolve_right ?_⟩
    rintro ⟨-, d, g, hd, -⟩
    cases hd
  | defect d =>
    have hdefect : LoadError.defect d ≠ .source e := nofun
    rw [LoadError.ofText, or_iff_right hdefect]
    cases hknot : knot? path text with
    | none =>
      refine iff_of_false nofun ?_
      rintro ⟨-, d', g, -, hg, -⟩
      cases hg
    | some g =>
      rw [Option.elim_some, Defect.within?]
      cases hbeyond : d.isBeyond g with
      | false =>
        refine iff_of_false nofun ?_
        rintro ⟨-, d', g', hd, hg, hbeyond'⟩
        cases hd
        cases hg
        cases hbeyond.symm.trans hbeyond'
      | true =>
        refine ⟨fun h => ⟨(LoadError.source.inj h).symm, d, g, rfl, rfl, hbeyond⟩, ?_⟩
        rintro ⟨rfl, -⟩
        rfl

/-- A source that is reported of a file is reported by a reader of text, or of what was read. -/
theorem ofFile_eq_source_iff (htext : Text.fileText? bytes = some text) :
    Catalog.ofFile path bytes = .error (.source e) ↔
      Value.ofFile path bytes = .error (.source e) ∨ ∃ entries e',
        Value.ofFile path bytes = .ok (.object entries) ∧ Catalog.ofDocument entries = .error e' ∧
          e'.ofText path text = .source e := by
  rw [Catalog.ofFile, htext]
  cases Value.ofFile path bytes with
  | error e' =>
    refine ⟨fun h => .inl (congrArg Except.error (Except.error.inj h)), ?_⟩
    rintro (h | ⟨entries, e'', hread, -⟩)
    · exact congrArg Except.error (Except.error.inj h)
    · cases hread
  | ok v =>
    rw [or_iff_right (by simp only [reduceCtorEq, not_false_eq_true])]
    cases v with
    | object entries =>
      constructor
      · intro h
        dsimp only at h
        cases hload : Catalog.ofDocument entries with
        | ok c =>
          rw [hload] at h
          cases h
        | error e' =>
          rw [hload] at h
          exact ⟨entries, e', rfl, hload, Except.error.inj h⟩
      · rintro ⟨entries', e', hread, hload, he⟩
        cases hread
        dsimp only
        rw [hload]
        exact congrArg Except.error he
    | _ =>
      constructor
      · intro h
        cases h
      · rintro ⟨entries, e', hread, -⟩
        cases hread

theorem read_eq_ok_object {entries : List (Value × Value)} :
    Yaml.read text = .ok (.object entries) ↔
      ∃ g, Yaml.graph? text = .ok (some g) ∧ g.value = .object entries := by
  rw [Yaml.read]
  constructor
  · intro h
    cases hgraph : Yaml.graph? text with
    | error fault =>
      rw [hgraph] at h
      cases h
    | ok g? =>
      rw [hgraph] at h
      cases g? with
      | none => cases h
      | some g => exact ⟨g, rfl, Except.ok.inj h⟩
  · rintro ⟨g, hg, hvalue⟩
    rw [hg]
    exact congrArg Except.ok hvalue

theorem ofYaml_eq_ok {v : Value} : Value.ofYaml text = .ok v ↔ Yaml.read text = .ok v := by
  rw [Value.ofYaml]
  cases Yaml.read text with
  | ok u => rw [Except.ok.injEq, Except.ok.injEq]
  | error fault => exact iff_of_false nofun nofun

theorem ofFile_of_escapes (h : Escapes path bytes e) :
    Catalog.ofFile path bytes = .error (.source e) := by
  cases h with
  | encoding hbytes => rw [Catalog.ofFile, Value.ofFile, fileText?_eq_none.mpr hbytes]
  | numeral htext hsuffix hread _ =>
    refine (ofFile_eq_source_iff htext).mpr (.inl ?_)
    rw [ofFile_of_json htext hsuffix, Value.ofJsonOrYaml, hread]
  | scalar htext hyaml hread hfault _ =>
    refine (ofFile_eq_source_iff htext).mpr (.inl ?_)
    rw [ofFile_of_yaml htext hyaml, Value.ofYaml, hread]
    exact congrArg Except.error (ofFault_of_ne hfault)
  | integer htext hyaml hread hstop =>
    have hload := Document.ofDocument_eq_source.mpr ⟨rfl, hstop⟩
    refine (ofFile_eq_source_iff htext).mpr (.inr ⟨_, _, ?_, hload, rfl⟩)
    rw [ofFile_of_yaml htext hyaml]
    exact ofYaml_eq_ok.mpr hread
  | endless htext hyaml hgraph hknotted hvalue hload hbeyond _ _ =>
    have hknot := knot?_eq_some.mpr ⟨hyaml, hgraph, hknotted⟩
    refine (ofFile_eq_source_iff htext).mpr (.inr ⟨_, _, ?_, hload,
      ofText_eq_source.mpr (.inr ⟨rfl, _, _, rfl, hknot, hbeyond⟩)⟩)
    rw [ofFile_of_yaml htext hyaml]
    exact ofYaml_eq_ok.mpr (read_eq_ok_object.mpr ⟨_, hgraph, hvalue⟩)

/-- What is read as YAML stops at a piece of the text, at an integer of the document, or nowhere. -/
theorem escapes_of_yaml (htext : Text.fileText? bytes = some text) (hyaml : ReadAsYaml path text)
    (h : Catalog.ofFile path bytes = .error (.source e)) : Escapes path bytes e := by
  rw [ofFile_eq_source_iff htext, ofFile_of_yaml htext hyaml] at h
  obtain h | ⟨entries, e', hread, hload, he⟩ := h
  · rw [Value.ofYaml] at h
    split at h
    · cases h
    · next fault hread =>
      by_cases hfault : fault = .malformed
      · subst hfault
        cases h
      · obtain rfl : SourceError.scalar fault = e :=
          LoadError.source.inj ((ofFault_of_ne hfault).symm.trans (Except.error.inj h))
        exact .scalar htext hyaml hread hfault (Yaml.stops_of_read hread hfault)
  · have hread := ofYaml_eq_ok.mp hread
    obtain rfl | ⟨rfl, d, g, rfl, hknot, hbeyond⟩ := ofText_eq_source.mp he
    · obtain ⟨rfl, hstop⟩ := Document.ofDocument_eq_source.mp hload
      exact .integer htext hyaml hread hstop
    · obtain ⟨g', hgraph', hvalue⟩ := read_eq_ok_object.mp hread
      obtain ⟨-, hgraph, hknotted⟩ := knot?_eq_some.mp hknot
      obtain rfl := Option.some.inj (Except.ok.inj (hgraph'.symm.trans hgraph))
      obtain ⟨w, hw, hback⟩ := Document.comesBack_of_isBeyond hgraph hvalue hload hbeyond
      exact .endless htext hyaml hgraph hknotted hvalue hload hbeyond hw hback

/-- What is read as JSON stops at a number of the text: those of the document can be written. -/
theorem escapes_of_json (htext : Text.fileText? bytes = some text) (hyaml : ¬ ReadAsYaml path text)
    (h : Catalog.ofFile path bytes = .error (.source e)) : Escapes path bytes e := by
  obtain ⟨hsuffix, hjson⟩ := not_or.mp hyaml
  rw [ofFile_eq_source_iff htext, ofFile_of_json htext hsuffix, Value.ofJsonOrYaml] at h
  cases hread : Json.read (Json.inMarking text) with
  | error reason =>
    cases reason with
    | malformed => exact absurd hread hjson
    | oversizedInteger =>
      rw [hread] at h
      obtain h | ⟨entries, e', h, -⟩ := h
      · obtain rfl := LoadError.source.inj (Except.error.inj h)
        have hlong := Json.hasLongNumeral_of_inMarking (Json.hasLongNumeral_of_read hread)
        exact .numeral htext hsuffix hread hlong
      · cases h
  | ok v =>
    rw [hread] at h
    obtain h | ⟨entries, e', hv, hload, he⟩ := h
    · cases h
    · obtain rfl := Except.ok.inj hv
      obtain rfl | ⟨-, d, g, -, hknot, -⟩ := ofText_eq_source.mp he
      · obtain ⟨c, hc⟩ | ⟨d, hd⟩ := Document.ofDocument_ok_or_defect (Json.fits_of_read hread)
        · nomatch hc.symm.trans hload
        · nomatch hd.symm.trans hload
      · exact absurd (knot?_eq_some.mp hknot).1 hyaml

/-- **A file is loaded or refused for a defect, unless something of this kind stops it.** -/
theorem ofFile_eq_source :
    Catalog.ofFile path bytes = .error (.source e) ↔ Escapes path bytes e := by
  refine ⟨fun h => ?_, ofFile_of_escapes⟩
  cases htext : Text.fileText? bytes with
  | none =>
    rw [Catalog.ofFile, Value.ofFile, htext] at h
    obtain rfl := LoadError.source.inj (Except.error.inj h)
    exact .encoding (fileText?_eq_none.mp htext)
  | some text =>
    by_cases hyaml : ReadAsYaml path text
    · exact escapes_of_yaml htext hyaml h
    · exact escapes_of_json htext hyaml h

/-- What a file that is loaded or refused for a defect comes to, no other does. -/
theorem loaded_or_refused_iff :
    ((∃ c, Catalog.ofFile path bytes = .ok c) ∨
      ∃ d, Catalog.ofFile path bytes = .error (.defect d)) ↔ ∀ e, ¬ Escapes path bytes e := by
  constructor
  · rintro (⟨c, hc⟩ | ⟨d, hd⟩) e he
    · nomatch hc.symm.trans (ofFile_of_escapes he)
    · nomatch hd.symm.trans (ofFile_of_escapes he)
  · intro hnone
    match hload : Catalog.ofFile path bytes with
    | .ok c => exact .inl ⟨c, rfl⟩
    | .error (.defect d) => exact .inr ⟨d, rfl⟩
    | .error (.source e) => exact absurd (ofFile_eq_source.mp hload) (hnone e)

end Source

namespace Command

section Run

variable {o : Options} {bytes : ByteArray} {fs : FileSystem}

theorem runOptions_of_error {e : LoadError} (hread : fs.read o.catalog = .ok bytes)
    (hload : Catalog.ofFile o.catalog bytes = .error e) (timestamp : String)
    (environment : String → Option String) :
    runOptions timestamp environment o fs = (loadOutcome e, fs) := by
  rw [runOptions, hread]
  simp only [hload]

/-- A run whose catalog cannot be loaded ends with status one if the catalog has a defect. -/
theorem exit_eq_one_iff (hread : fs.read o.catalog = .ok bytes)
    (hload : ∀ c, Catalog.ofFile o.catalog bytes ≠ .ok c) (timestamp : String)
    (environment : String → Option String) :
    (runOptions timestamp environment o fs).1.exit = .ok 1 ↔
      ∀ e, ¬ Escapes o.catalog bytes e := by
  match hfile : Catalog.ofFile o.catalog bytes with
  | .ok c => exact absurd hfile (hload c)
  | .error (.defect d) =>
    rw [runOptions_of_error hread hfile]
    exact iff_of_true rfl (loaded_or_refused_iff.mp (.inr ⟨d, hfile⟩))
  | .error (.source e) =>
    rw [runOptions_of_error hread hfile]
    exact iff_of_false nofun fun hnone => hnone e (ofFile_eq_source.mp hfile)

end Run

/-- **A catalog file gives a catalog or is refused for a defect exactly if nothing escapes from
it**, and exactly then a run that cannot load it ends with status one; what escapes is passed on,
and no file has changed. -/
theorem catalog_file_verdict (path : Path) (bytes : ByteArray) :
    (∀ e, Catalog.ofFile path bytes = .error (.source e) ↔ Escapes path bytes e) ∧
      (((∃ c, Catalog.ofFile path bytes = .ok c) ∨
        ∃ d, Catalog.ofFile path bytes = .error (.defect d)) ↔ ∀ e, ¬ Escapes path bytes e) ∧
      ∀ (o : Options) (arguments : List String) (fs : FileSystem) (timestamp : String)
        (environment : String → Option String), Request.ofArguments arguments = .run o →
        o.catalog = path → fs.read path = .ok bytes →
        let result := run timestamp environment arguments fs
        ((∀ c, Catalog.ofFile path bytes ≠ .ok c) →
          (result.1.exit = .ok 1 ↔ ∀ e, ¬ Escapes path bytes e)) ∧
        ∀ e, Escapes path bytes e → result.1.exit = .error (.source e) ∧ result.2 = fs := by
  refine ⟨fun e => ofFile_eq_source, loaded_or_refused_iff, ?_⟩
  rintro o arguments fs timestamp environment hrequest rfl hread
  have hrun : run timestamp environment arguments fs = runOptions timestamp environment o fs := by
    rw [run, hrequest]
  rw [hrun]
  refine ⟨fun hload => exit_eq_one_iff hread hload timestamp environment, fun e he => ?_⟩
  rw [runOptions_of_error hread (ofFile_of_escapes he)]
  exact ⟨rfl, rfl⟩

/-- A directory with a catalog file in it. -/
def catalogDirectory (bytes : ByteArray) : FileSystem :=
  ⟨[([], .directory), (["api.json"], .file bytes)], []⟩

/-- The document of an empty list is refused with status one, and a byte that no text has is passed
on. -/
theorem list_and_byte_catalog_runs :
    (run "" (fun _ => none) ["api.json", "-o", "api.ts"] (catalogDirectory "[]".toUTF8)).1.exit =
        .ok 1 ∧
      (run "" (fun _ => none) ["api.json", "-o", "api.ts"] (catalogDirectory ⟨#[0xff]⟩)).1.exit =
        .error (.source .encoding) := by
  have hrequest : Request.ofArguments ["api.json", "-o", "api.ts"] =
      .run ⟨.ofText "api.json", some (.ofText "api.ts"), "T", false, false, false⟩ := by rfl
  have hlist : Catalog.ofFile (.ofText "api.json") "[]".toUTF8 =
      .error (.defect .documentNotObject) :=
    TypeCatalog.Failure.failure?_eq_some.mp (by decide +kernel)
  have hbyte : Catalog.ofFile (.ofText "api.json") ⟨#[0xff]⟩ = .error (.source .encoding) :=
    TypeCatalog.Failure.failure?_eq_some.mp (by decide +kernel)
  constructor
  · obtain ⟨-, hiff, hruns⟩ := catalog_file_verdict (.ofText "api.json") "[]".toUTF8
    refine ((hruns _ _ (catalogDirectory _) "" (fun _ => none) hrequest rfl (by rfl)).1 ?_).mpr
      (hiff.mp (.inr ⟨_, hlist⟩))
    rintro c hc
    nomatch hc.symm.trans hlist
  · obtain ⟨hescapes, -, hruns⟩ := catalog_file_verdict (.ofText "api.json") ⟨#[0xff]⟩
    exact ((hruns _ _ (catalogDirectory _) "" (fun _ => none) hrequest rfl (by rfl)).2 _
      ((hescapes _).mp hbyte)).1

/-- A byte that no text has is neither a catalog nor refused. -/
theorem byte_catalog_not_refused :
    ¬ ((∃ c, Catalog.ofFile (.ofText "catalog.json") ⟨#[0xff]⟩ = .ok c) ∨
      ∃ d, Catalog.ofFile (.ofText "catalog.json") ⟨#[0xff]⟩ = .error (.defect d)) := by
  have hbyte : Catalog.ofFile (.ofText "catalog.json") ⟨#[0xff]⟩ = .error (.source .encoding) :=
    TypeCatalog.Failure.failure?_eq_some.mp (by decide +kernel)
  rintro (⟨c, hc⟩ | ⟨d, hd⟩)
  · nomatch hc.symm.trans hbyte
  · nomatch hd.symm.trans hbyte

end Command

end TypeCatalog
