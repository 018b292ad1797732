import TypeCatalog.Log.Line
import TypeCatalog.Proofs.Document.Oversized
import TypeCatalog.Proofs.Json.WriteBack

/-!
# Proofs/Log/Lines — what a line says of an event

A line that is a JSON object is the line of one value (`jsonLine_eq_line`), so it is one line of
printable characters, and **it is read as an object that says what the record does**
(`read_jsonLine`): the text, the level and the logger of the event, when it happened, the definition
that is bound, and the fields.
-/

namespace TypeCatalog.Log

open Json Value

/-- What a line says of an event, under its names. -/
def Record.told (timestamp : String) (r : Record) : List (String × Value) :=
  [("event", .string r.event.text), ("level", .string r.event.level.word),
    ("logger", .string (loggerName r.event.logger)), ("timestamp", .string timestamp)] ++
  r.shownFields

variable {timestamp : String} {r : Record}

theorem keyed_map_underString (es : List (String × Value)) : keyed (es.map underString) = es := by
  rw [keyed, List.map_map]
  exact List.map_id es

/-- A line that is a JSON object is the line of what it says. -/
theorem jsonLine_eq_line (timestamp : String) (r : Record) :
    jsonLine timestamp r = line (.object ((r.told timestamp).map underString)) := by
  rw [line, entryLines_eq_map, keyed_map_underString, Record.told, List.map_append]
  rfl

/-! ## Names -/

/-- The fields that are shown without the definition. -/
def Record.ownShown (r : Record) : List (String × Value) :=
  r.event.fields.filter fun f => !ownFields.contains f.1 && !handlerFields.contains f.1

theorem Record.shownFields_eq (r : Record) : r.shownFields =
    (if (r.ownShown.map (·.1)).contains "definition" then []
      else (r.definition.map fun d => ("definition", Value.string d)).toList) ++ r.ownShown := by
  rw [shownFields]
  cases hd : r.definition with
  | none => simp only [Option.map_none, Option.toList_none, ite_self, List.nil_append]; rfl
  | some d =>
    dsimp only
    rw [← ownShown]
    split <;> rfl

theorem nodup_shownFields (hnames : (r.event.fields.map Prod.fst).Nodup) :
    (r.shownFields.map Prod.fst).Nodup := by
  have hown : (r.ownShown.map Prod.fst).Nodup := hnames.sublist (List.filter_sublist.map _)
  rw [Record.shownFields_eq]
  split
  · exact hown
  · next hfree =>
    cases r.definition with
    | none => exact hown
    | some d =>
      refine List.nodup_cons.mpr ⟨fun hmem => hfree ?_, hown⟩
      exact List.contains_iff_mem.mpr hmem

theorem shownFields_not_own : ∀ f ∈ r.shownFields, f.1 ∉ ownFields := by
  have hown : ∀ f ∈ r.ownShown, f.1 ∉ ownFields := by
    intro f hf
    have h := (List.mem_filter.mp hf).2
    simp only [Bool.and_eq_true, Bool.not_eq_true', List.contains_eq_mem, decide_eq_false_iff_not] at h
    exact h.1
  rw [Record.shownFields_eq]
  refine List.forall_mem_append.mpr ⟨?_, hown⟩
  split
  · nofun
  · cases r.definition with
    | none => nofun
    | some d => exact List.forall_mem_singleton.mpr (show "definition" ∉ ownFields by decide)

theorem nodup_told (timestamp : String) (hnames : (r.event.fields.map Prod.fst).Nodup) :
    ((r.told timestamp).map Prod.fst).Nodup := by
  rw [Record.told, List.map_append]
  refine List.Nodup.append (by simp) (nodup_shownFields hnames) ?_
  intro name hown hshown
  obtain ⟨f, hf, rfl⟩ := List.mem_map.mp hshown
  exact shownFields_not_own f hf hown

/-! ## Values -/

theorem forall_shownFields {p : Value → Prop} (hstring : ∀ s, p (.string s))
    (h : ∀ f ∈ r.event.fields, p f.2) : ∀ f ∈ r.shownFields, p f.2 := by
  have hown : ∀ f ∈ r.ownShown, p f.2 := fun f hf => h f (List.mem_of_mem_filter hf)
  rw [Record.shownFields_eq]
  refine List.forall_mem_append.mpr ⟨?_, hown⟩
  split
  · nofun
  · cases r.definition with
    | none => nofun
    | some d => exact List.forall_mem_singleton.mpr (hstring d)

theorem forall_told {p : Value → Prop} (hstring : ∀ s, p (.string s))
    (h : ∀ f ∈ r.shownFields, p f.2) : ∀ f ∈ r.told timestamp, p f.2 := by
  refine List.forall_mem_append.mpr ⟨?_, h⟩
  simp only [List.forall_mem_cons, hstring, true_and]
  nofun

theorem entriesProper_iff {es : List (Value × Value)} :
    EntriesProper es ↔ ∀ e ∈ es, (∃ s, e.1 = .string s) ∧ IsProper e.2 := by
  induction es with
  | nil => simp [EntriesProper]
  | cons e es ih => rw [EntriesProper, ih, List.forall_mem_cons, and_assoc]

/-- What a line says is an object that is read back. -/
theorem isProper_told (hnames : (r.event.fields.map Prod.fst).Nodup)
    (h : ∀ f ∈ r.event.fields, IsProper f.2) :
    IsProper (.object ((r.told timestamp).map underString)) := by
  refine ⟨?_, entriesProper_iff.mpr (List.forall_mem_map.mpr fun f hf =>
    ⟨⟨f.1, rfl⟩, forall_told (fun _ => trivial) (forall_shownFields (fun _ => trivial) h) f hf⟩)⟩
  have hstrings := (nodup_told timestamp hnames).map fun _ _ => Value.string.inj
  rw [List.map_map] at hstrings ⊢
  exact hstrings

theorem fits_told (h : ∀ f ∈ r.shownFields, Fits f.2) :
    Fits (.object ((r.told timestamp).map underString)) :=
  entriesFit_iff.mpr (List.forall_mem_map.mpr fun f hf => ⟨rfl, forall_told (fun _ => rfl) h f hf⟩)

/-- A record can be written as an object exactly if all that it shows can. -/
theorem isWritable_json : r.isWritable true ↔ ∀ f ∈ r.shownFields, Fits f.2 := by
  rw [Record.isWritable, if_pos rfl, List.all_eq_true]
  refine forall₂_congr fun f _ => ?_
  rw [← not_iff_not, Bool.not_eq_true, Option.isSome_eq_false_iff, Option.isNone_iff_eq_none,
    printed?_eq_none]

/-- A record can be written on a line made for reading if its fields can, and what comes after the
line is text. -/
theorem isWritable_console (hfits : ∀ f ∈ r.shownFields, Fits f.2)
    (htrail : ∀ name ∈ ["stack", "exception"], ∀ v ∈ r.shownFields.lookup name,
      v = .null ∨ ∃ s, v = .string s) : r.isWritable false := by
  rw [Record.isWritable, if_neg (by decide), Bool.and_eq_true, List.all_eq_true, List.all_eq_true]
  refine ⟨fun f hf => Fits.printed? (hfits f (List.mem_of_mem_filter hf)), fun name hname => ?_⟩
  rw [Record.trailing?]
  cases hv : r.shownFields.lookup name with
  | none => rfl
  | some v =>
    obtain rfl | ⟨s, rfl⟩ := htrail name hname v hv
    · rfl
    · rfl

/-! ## What is found under a name -/

theorem lookup_map_underString (key : String) (es : List (String × Value)) :
    Value.lookup key (es.map underString) = es.lookup key := by
  induction es with
  | nil => rfl
  | cons e es ih =>
    have hkey : (underString e).1.isString key = (key == e.1) := Bool.beq_comm
    rw [List.map_cons, Value.lookup, List.lookup_cons, ih, hkey]
    cases key == e.1 <;> rfl

theorem lookup_filter {p : String → Bool} {key : String} (h : p key) (es : List (String × Value)) :
    (es.filter fun f => p f.1).lookup key = es.lookup key := by
  induction es with
  | nil => rfl
  | cons e es ih =>
    rw [List.filter_cons]
    split
    · rw [List.lookup_cons, List.lookup_cons, ih]
    · next he =>
      have hne : (key == e.1) = false := beq_eq_false_iff_ne.mpr (by rintro rfl; exact he h)
      rw [ih, List.lookup_cons, hne]

/-- A name that no line and no handler takes for itself. -/
def IsFree (name : String) : Prop := name ∉ ownFields ∧ name ∉ handlerFields

instance (name : String) : Decidable (IsFree name) := inferInstanceAs (Decidable (_ ∧ _))

theorem lookup_ownShown {key : String} (h : IsFree key) :
    r.ownShown.lookup key = r.event.fields.lookup key :=
  lookup_filter (p := fun name => !ownFields.contains name && !handlerFields.contains name)
    (by simpa [IsFree] using h) _

theorem lookup_shownFields {key : String} (h : IsFree key) (hne : key ≠ "definition") :
    r.shownFields.lookup key = r.event.fields.lookup key := by
  rw [Record.shownFields_eq, List.lookup_append, lookup_ownShown h]
  split
  · rfl
  · cases r.definition with
    | none => rfl
    | some d =>
      have hbeq : (key == "definition") = false := beq_eq_false_iff_ne.mpr hne
      simp [List.lookup_cons, hbeq]

/-- The definition that is bound is shown, unless the event has a field of that name. -/
theorem lookup_definition (h : r.event.fields.lookup "definition" = none) :
    r.shownFields.lookup "definition" = r.definition.map Value.string := by
  have hown : r.ownShown.lookup "definition" = none := (lookup_ownShown (by decide)).trans h
  have habsent : ¬ (r.ownShown.map (·.1)).contains "definition" := by
    rw [List.contains_iff_mem]
    intro hmem
    obtain ⟨f, hf, hname⟩ := List.mem_map.mp hmem
    have hne := List.lookup_eq_none_iff.mp hown f hf
    rw [hname] at hne
    exact absurd hne (by decide)
  rw [Record.shownFields_eq, List.lookup_append, hown, if_neg habsent, Option.or_none]
  cases r.definition <;> rfl

/-- What a handler takes for itself is not shown. -/
theorem lookup_handlerField {key : String} (h : key ∈ handlerFields) :
    r.shownFields.lookup key = none := by
  have hne : key ≠ "definition" := by
    rintro rfl
    exact absurd h (by decide)
  rw [Record.shownFields_eq, List.lookup_append, Option.or_eq_none_iff]
  constructor
  · split
    · rfl
    · cases r.definition with
      | none => rfl
      | some d => simp [List.lookup_cons, beq_eq_false_iff_ne.mpr hne]
  · refine List.lookup_eq_none_iff.mpr fun f hf => bne_iff_ne.mpr ?_
    rintro rfl
    have hshown := (List.mem_filter.mp hf).2
    simp only [Bool.and_eq_true, Bool.not_eq_true', List.contains_eq_mem,
      decide_eq_false_iff_not] at hshown
    exact hshown.2 h

theorem lookup_told_of_not_own {key : String} (h : key ∉ ownFields) :
    (r.told timestamp).lookup key = r.shownFields.lookup key := by
  have hnone : [("event", Value.string r.event.text), ("level", .string r.event.level.word),
      ("logger", .string (loggerName r.event.logger)), ("timestamp", .string timestamp)].lookup key =
      none := by
    refine List.lookup_eq_none_iff.mpr fun e he => ?_
    have hmem : e.1 ∈ ownFields := List.mem_map_of_mem (f := Prod.fst) he
    refine bne_iff_ne.mpr ?_
    rintro rfl
    exact h hmem
  rw [Record.told, List.lookup_append, hnone, Option.none_or]

/-- What can be written of the fields of an event can be written of its record. -/
theorem isWritable_of_texts {json : Bool} (hfits : ∀ f ∈ r.event.fields, Fits f.2)
    (htrail : json = false → ∀ name ∈ ["stack", "exception"], ∀ v ∈ r.event.fields.lookup name,
      v = .null ∨ ∃ t, v = .string t) : r.isWritable json := by
  have hshown := forall_shownFields (r := r) (fun _ => rfl) hfits
  cases json with
  | true => exact isWritable_json.mpr hshown
  | false =>
    have hfree : ∀ name ∈ ["stack", "exception"], IsFree name ∧ name ≠ "definition" := by decide
    refine isWritable_console hshown fun name hname v hv => htrail rfl name hname v ?_
    rwa [lookup_shownFields (hfree name hname).1 (hfree name hname).2] at hv

/-! ## Reading -/

/-- An object says what a record does. -/
structure Tells (object : List (Value × Value)) (timestamp : String) (r : Record) : Prop where
  event : lookup "event" object = some (.string r.event.text)
  level : lookup "level" object = some (.string r.event.level.word)
  logger : lookup "logger" object = some (.string (loggerName r.event.logger))
  timestamp : lookup "timestamp" object = some (.string timestamp)
  definition : r.event.fields.lookup "definition" = none →
    lookup "definition" object = r.definition.map .string
  field : ∀ name, IsFree name → name ≠ "definition" →
    lookup name object = (r.event.fields.lookup name).map form
  hidden : ∀ name ∈ handlerFields, lookup name object = none

/-- **A line that is a JSON object is read as an object that says what the record does.** -/
theorem read_jsonLine (timestamp : String) (hnames : (r.event.fields.map Prod.fst).Nodup)
    (hproper : ∀ f ∈ r.event.fields, IsProper f.2) (hfits : ∀ f ∈ r.shownFields, Fits f.2) :
    ∃ object, read (jsonLine timestamp r ++ "\n") = .ok (.object object) ∧
      Tells object timestamp r := by
  have htold : IsProper (.object ((r.told timestamp).map underString)) :=
    isProper_told hnames hproper
  have hgap : ∀ c ∈ "\n".toList, isGap c := forall_mem_of_all (by decide)
  have hread := read_line htold (fits_told hfits) hgap
  obtain ⟨object, hobject, hlookup⟩ := lookup_form htold
  simp only [lookup_map_underString] at hlookup
  rw [← jsonLine_eq_line, hobject] at hread
  refine ⟨object, hread, hlookup _, hlookup _, hlookup _, hlookup _, fun h => ?_,
    fun name h hne => ?_, fun name h => ?_⟩
  · rw [hlookup, lookup_told_of_not_own (by decide), lookup_definition h]
    cases r.definition <;> rfl
  · rw [hlookup, lookup_told_of_not_own h.1, lookup_shownFields h hne]
  · have hown : ∀ name ∈ handlerFields, name ∉ ownFields := by decide
    rw [hlookup, lookup_told_of_not_own (hown name h), lookup_handlerField h]
    rfl

/-- It is one line. -/
theorem isPlain_jsonLine : ∀ c ∈ (jsonLine timestamp r).toList, IsPlain c := by
  rw [jsonLine_eq_line]
  exact isPlain_line _

end TypeCatalog.Log
