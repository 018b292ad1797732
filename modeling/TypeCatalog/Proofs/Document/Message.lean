import TypeCatalog.Catalog.File
import TypeCatalog.Proofs.Document.FirstDefect
import TypeCatalog.Proofs.Layout.Pieces

/-!
# Proofs/Document/Message — what is said of a document stands on one line

A message may quote what stands in a document, which holds any text.  Yet no line feed comes
through: what is quoted is escaped (`oneLine_quoted`), a printed value is made of quoted texts,
numbers and fixed words (`oneLine_printed`), and a place is made of positions and of keys that
belong to roles (`Site.oneLine`).  Taking marks out of a text or putting dots for a node inside
itself adds no line feed either (`oneLine_of_ofFile`).
-/

namespace TypeCatalog.Layout

open Number Text Value

/-! ## Digits -/

theorem oneLine_ofList {chars : List Char} : OneLine (String.ofList chars) ↔ '\n' ∉ chars := by
  rw [OneLine, String.toList_ofList]

theorem newline_ne_digitChar (d : Nat) : '\n' ≠ Nat.digitChar d := by
  obtain hd | hd := Nat.lt_or_ge d 16
  · revert d
    decide
  · rw [Nat.digitChar_eq_star.mpr hd]
    decide

/-- No digit ends a line, by strong induction on the number. -/
theorem newline_notMem_toDigits {b : Nat} (hb : 1 < b) (n : Nat) : '\n' ∉ Nat.toDigits b n := by
  induction n using Nat.strongRecOn with
  | ind n ih =>
    rw [Nat.toDigits_eq_if hb]
    split
    · exact fun hmem => newline_ne_digitChar n (List.mem_singleton.mp hmem)
    · next hle =>
      have hlt : n / b < n := Nat.div_lt_self (by omega) hb
      rw [List.mem_append, List.mem_singleton]
      exact fun hmem => hmem.elim (ih _ hlt) (newline_ne_digitChar _)

theorem oneLine_natText (n : Nat) : OneLine (toString n) := by
  rw [Nat.toString_eq_ofList_toDigits, oneLine_ofList]
  exact newline_notMem_toDigits (by decide) n

theorem oneLine_intText (n : Int) : OneLine (toString n) := by
  cases n with
  | ofNat n => exact oneLine_natText n
  | negSucc n => exact OneLine.append (by decide) (oneLine_natText (n + 1))

/-- An integer that can be written stands on one line. -/
theorem oneLine_integerText {n : Int} {t : String} (h : integerText? n = some t) : OneLine t := by
  rw [integerText?] at h
  split at h
  · cases h
  · obtain rfl := Option.some.inj h
    have hdigits := newline_notMem_toDigits (b := 10) (by decide) n.natAbs
    rw [oneLine_ofList]
    split
    · exact fun hmem => (List.mem_cons.mp hmem).elim (by decide) hdigits
    · exact hdigits

/-! ## Floating-point numbers -/

theorem newline_notMem_significantDigits (d : Decimal) : '\n' ∉ d.significantDigits.1 := by
  rw [Decimal.significantDigits]
  split
  · decide
  · intro hmem
    have hall := (List.dropWhile_suffix _).subset (List.mem_reverse.mp hmem)
    exact newline_notMem_toDigits (by decide) d.digits (List.mem_reverse.mp hall)

theorem newline_notMem_replicate_zero (n : Nat) : '\n' ∉ List.replicate n '0' :=
  fun hmem => absurd (List.eq_of_mem_replicate hmem) (by decide)

/-- Digits with a point among them, or with zeros on a side. -/
theorem newline_notMem_inPlaces {digits : List Char} (h : '\n' ∉ digits) (exponent : Int) :
    '\n' ∉ DecimalStyle.inPlaces digits exponent := by
  have htake (n : Nat) : '\n' ∉ digits.take n := fun hmem => h (List.mem_of_mem_take hmem)
  have hdrop (n : Nat) : '\n' ∉ digits.drop n := fun hmem => h (List.mem_of_mem_drop hmem)
  rw [DecimalStyle.inPlaces]
  dsimp only
  split
  · simp [h]
  · split
    · simp [htake, hdrop]
    · simp [h]

/-- One digit, a point, the others, and an exponent. -/
theorem newline_notMem_withExponent (style : DecimalStyle) {digits : List Char}
    (h : '\n' ∉ digits) (lead : Int) : '\n' ∉ style.withExponent digits lead := by
  have htake : '\n' ∉ digits.take 1 := fun hmem => h (List.mem_of_mem_take hmem)
  have hdrop : '\n' ∉ digits.drop 1 := fun hmem => h (List.mem_of_mem_drop hmem)
  have hpower := newline_notMem_toDigits (b := 10) (by decide) lead.natAbs
  have hsign : '\n' ≠ if lead < 0 then '-' else '+' := by split <;> decide
  rw [DecimalStyle.withExponent]
  split <;> simp_all

theorem oneLine_signed {text : String} (h : OneLine text) (negative : Bool) :
    OneLine ((if negative then "-" else "") ++ text) := by
  refine OneLine.append ?_ h
  split <;> decide

/-- A floating-point number stands on one line, in either notation. -/
theorem oneLine_floatText (x : Binary64) : OneLine (DecimalStyle.plain.text x) := by
  cases x with
  | nan => decide
  | infinite negative => exact oneLine_signed (by decide) negative
  | finite negative m e =>
    have hdigits := newline_notMem_significantDigits (Binary64.shortestDigits m e)
    rw [DecimalStyle.text]
    refine oneLine_signed (oneLine_ofList.mpr ?_) negative
    split
    · exact newline_notMem_inPlaces hdigits _
    · exact newline_notMem_withExponent _ hdigits _

/-! ## Quoted texts -/

theorem newline_notMem_hexPadded (width n : Nat) : '\n' ∉ hexPadded width n := by
  rw [hexPadded, List.mem_append, not_or]
  exact ⟨newline_notMem_replicate_zero _, newline_notMem_toDigits (by decide) n⟩

theorem quoteFor_ne_newline (text : List Char) : quoteFor text ≠ '\n' := by
  rw [quoteFor]
  split <;> decide

/-- A line feed between quotes is written by its letter, and all else stands for itself or as
digits. -/
theorem newline_notMem_quotedChar {quote : Char} (hquote : quote ≠ '\n') (c : Char) :
    '\n' ∉ quotedChar quote c := by
  have hhex (width : Nat) := newline_notMem_hexPadded width c.toNat
  rw [quotedChar]
  split_ifs with hspecial hfeed
  · have hne : c ≠ '\n' := by
      rintro rfl
      exact hspecial.elim (fun h => hquote h.symm) (by decide)
    simp [hne.symm]
  · decide
  all_goals simp [hhex, Ne.symm hfeed]

/-- The same of a byte between quotes. -/
theorem newline_notMem_quotedByte {quote : Char} (hquote : quote ≠ '\n') (b : UInt8) :
    '\n' ∉ quotedByte quote b := by
  have hhex := newline_notMem_hexPadded 2 b.toNat
  rw [quotedByte]
  split_ifs with hspecial hfeed
  · have hne : Char.ofNat b.toNat ≠ '\n' := by
      intro heq
      rw [heq] at hspecial
      exact hspecial.elim (fun h => hquote h.symm) (by decide)
    simp [hne.symm]
  · decide
  all_goals simp [hhex, Ne.symm hfeed]

/-- **A text between quotes stands on one line**, whatever is in it. -/
theorem oneLine_quoted (text : String) : OneLine (quoted text) := by
  have hquote := quoteFor_ne_newline text.toList
  rw [quoted, oneLine_ofList]
  simp [hquote.symm, newline_notMem_quotedChar hquote]

theorem oneLine_quotedBytes (bytes : List UInt8) : OneLine (quotedBytes bytes) := by
  have hquote := quoteFor_ne_newline (bytes.map fun b => Char.ofNat b.toNat)
  rw [quotedBytes, oneLine_ofList]
  simp [hquote.symm, newline_notMem_quotedByte hquote]

/-! ## Printed values -/

/-- A distance from universal time, with the parts that are not zero. -/
theorem oneLine_offsetText (seconds : Int) : OneLine (Moment.offsetText seconds) := by
  have hpart {mark : String} (hmark : OneLine mark) (n : Int) (zero : Prop) [Decidable zero] :
      ∀ part ∈ if zero then [] else [mark ++ toString n], OneLine part := by
    intro part hpart
    split at hpart
    · nomatch hpart
    · rw [List.mem_singleton.mp hpart]
      exact hmark.append (oneLine_intText n)
  rw [Moment.offsetText]
  split
  · decide
  · refine ((by decide : OneLine _).append (.intercalate (by decide) ?_)).append (by decide)
    exact List.forall_mem_append.mpr ⟨hpart (by decide) _ _, hpart (by decide) _ _⟩

theorem oneLine_dayText (d : Day) : OneLine d.text := by
  refine ((by decide : OneLine _).append (.intercalate (by decide) ?_)).append (by decide)
  exact List.forall_mem_map.mpr fun n _ => oneLine_natText n

/-- A moment with its parts and its offset. -/
theorem oneLine_momentText (m : Moment) : OneLine m.text := by
  refine ((by decide : OneLine _).append (.intercalate (by decide) ?_)).append (by decide)
  refine List.forall_mem_append.mpr ⟨List.forall_mem_map.mpr fun n _ => oneLine_natText n, ?_⟩
  intro zone hzone
  split at hzone
  · nomatch hzone
  · rw [List.mem_singleton.mp hzone]
    exact OneLine.append (by decide) (oneLine_offsetText _)

/-- A text in brackets, with items between commas. -/
theorem oneLine_bracketed {front back : String} {items : List String} (hfront : OneLine front)
    (hback : OneLine back) (h : ∀ t ∈ items, OneLine t) :
    OneLine (front ++ ", ".intercalate items ++ back) :=
  (hfront.append (.intercalate (by decide) h)).append hback

mutual
/-- **A printed value stands on one line.** -/
theorem oneLine_printed : {v : Value} → {t : String} → printed? v = some t → OneLine t
  | .null, _, h => Option.some.inj h ▸ by decide
  | .bool b, _, h => Option.some.inj h ▸ by cases b <;> decide
  | .int _, _, h => oneLine_integerText h
  | .float x, _, h => Option.some.inj h ▸ oneLine_floatText x
  | .string s, _, h => Option.some.inj h ▸ oneLine_quoted s
  | .list items, _, h => by
    obtain ⟨ts, hts, rfl⟩ := Option.map_eq_some_iff.mp h
    exact oneLine_bracketed (by decide) (by decide) (oneLine_printedItems hts)
  | .object entries, _, h => by
    obtain ⟨ts, hts, rfl⟩ := Option.map_eq_some_iff.mp h
    exact oneLine_bracketed (by decide) (by decide) (oneLine_printedEntries hts)
  | .day d, _, h => Option.some.inj h ▸ oneLine_dayText d
  | .moment m, _, h => Option.some.inj h ▸ oneLine_momentText m
  | .bytes b, _, h => Option.some.inj h ▸ oneLine_quotedBytes b
  | .set [], _, h => Option.some.inj h ▸ by decide
  | .set (item :: items), _, h => by
    obtain ⟨ts, hts, rfl⟩ := Option.map_eq_some_iff.mp h
    exact oneLine_bracketed (by decide) (by decide) (oneLine_printedItems hts)
  | .pair a b, _, h => by
    obtain ⟨s, hs, h⟩ := Option.bind_eq_some_iff.mp h
    obtain ⟨t, ht, h⟩ := Option.bind_eq_some_iff.mp h
    obtain rfl := Option.some.inj h
    have hopen : OneLine ("(" ++ s) := OneLine.append (by decide) (oneLine_printed hs)
    exact ((hopen.append (by decide)).append (oneLine_printed ht)).append (by decide)

/-- The items of a list, each on one line. -/
theorem oneLine_printedItems : {vs : List Value} → {ts : List String} →
    printedItems? vs = some ts → ∀ t ∈ ts, OneLine t
  | [], _, h => Option.some.inj h ▸ nofun
  | v :: vs, _, h => by
    obtain ⟨t, ht, h⟩ := Option.bind_eq_some_iff.mp h
    obtain ⟨ts, hts, h⟩ := Option.bind_eq_some_iff.mp h
    obtain rfl := Option.some.inj h
    exact List.forall_mem_cons.mpr ⟨oneLine_printed ht, oneLine_printedItems hts⟩

/-- The entries of an object, each on one line. -/
theorem oneLine_printedEntries : {es : List (Value × Value)} → {ts : List String} →
    printedEntries? es = some ts → ∀ t ∈ ts, OneLine t
  | [], _, h => Option.some.inj h ▸ nofun
  | (k, v) :: es, _, h => by
    obtain ⟨s, hs, h⟩ := Option.bind_eq_some_iff.mp h
    obtain ⟨t, ht, h⟩ := Option.bind_eq_some_iff.mp h
    obtain ⟨ts, hts, h⟩ := Option.bind_eq_some_iff.mp h
    obtain rfl := Option.some.inj h
    have hentry := (oneLine_printed hs).append (by decide : OneLine ": ")
    exact List.forall_mem_cons.mpr
      ⟨hentry.append (oneLine_printed ht), oneLine_printedEntries hts⟩
end

/-! ## Knotted documents and marks -/

/-- Texts that are made of items, each on one line. -/
theorem forall_mem_of_mapM {α : Type} {f : α → Option String}
    (hf : ∀ a t, f a = some t → OneLine t) {as : List α} {ts : List String}
    (h : as.mapM f = some ts) : ∀ t ∈ ts, OneLine t := by
  induction as generalizing ts with
  | nil =>
    rw [List.mapM_nil] at h
    exact Option.some.inj h ▸ nofun
  | cons a as ih =>
    rw [List.mapM_cons] at h
    obtain ⟨t, ht, h⟩ := Option.bind_eq_some_iff.mp h
    obtain ⟨ts, hts, h⟩ := Option.bind_eq_some_iff.mp h
    obtain rfl := Option.some.inj h
    exact List.forall_mem_cons.mpr ⟨hf a t ht, ih hts⟩

/-- A node is printed on one line, by induction on how many more can stand in it. -/
theorem oneLine_graphPrinted (g : Yaml.Graph) {fuel n : Nat} {around : List Nat} {t : String}
    (h : g.printed? fuel around n = some t) : OneLine t := by
  induction fuel generalizing around n t with
  | zero => cases h
  | succ fuel ih =>
    rw [Yaml.Graph.printed?.eq_def] at h
    dsimp only at h
    split at h
    · split at h
      · exact Option.some.inj h ▸ by decide
      · obtain ⟨ts, hts, rfl⟩ := Option.map_eq_some_iff.mp h
        exact oneLine_bracketed (by decide) (by decide) (forall_mem_of_mapM (fun _ _ => ih) hts)
    · split at h
      · exact Option.some.inj h ▸ by decide
      · obtain ⟨ts, hts, rfl⟩ := Option.map_eq_some_iff.mp h
        refine oneLine_bracketed (by decide) (by decide) (forall_mem_of_mapM (fun e u hu => ?_) hts)
        obtain ⟨k, hk, hu⟩ := Option.bind_eq_some_iff.mp hu
        obtain ⟨v, hv, hu⟩ := Option.bind_eq_some_iff.mp hu
        obtain rfl := Option.some.inj hu
        have hopen : OneLine ("(" ++ k) := OneLine.append (by decide) (ih hk)
        exact ((hopen.append (by decide)).append (ih hv)).append (by decide)
    · split at h
      · exact Option.some.inj h ▸ by decide
      · obtain ⟨ts, hts, rfl⟩ := Option.map_eq_some_iff.mp h
        refine oneLine_bracketed (by decide) (by decide) (forall_mem_of_mapM (fun e u hu => ?_) hts)
        obtain ⟨k, hk, hu⟩ := Option.bind_eq_some_iff.mp hu
        obtain ⟨v, hv, hu⟩ := Option.bind_eq_some_iff.mp hu
        obtain rfl := Option.some.inj hu
        exact ((oneLine_printed hk).append (by decide)).append (ih hv)
    · exact oneLine_printed h
    · exact oneLine_printed h

/-- What is escaped in place of a mark is digits. -/
theorem newline_notMem_requoted {text : List Char} (h : '\n' ∉ text) : '\n' ∉ requoted text := by
  fun_induction requoted text with
  | case1 a b c d rest n ih =>
    simp only [List.mem_cons, not_or, List.mem_append] at h ⊢
    exact ⟨⟨by decide, by decide, newline_notMem_hexPadded _ _⟩, ih (by simp_all)⟩
  | case2 c rest _ ih =>
    simp only [List.mem_cons, not_or] at h ⊢
    exact ⟨h.1, h.2.1, ih h.2.2⟩
  | case3 c rest _ _ ih =>
    simp only [List.mem_cons, not_or] at h ⊢
    exact ⟨h.1, ih h.2⟩
  | case4 => exact h

/-- A printed value stands on one line without its marks too. -/
theorem oneLine_unmarked (m : Marking) {text : String} (h : OneLine text) :
    OneLine (m.printed text) := by
  cases m with
  | plain => exact h
  | marked => exact oneLine_ofList.mpr (newline_notMem_requoted h)

/-- Another text for a kind keeps a message on one line, if it is on one line itself. -/
theorem oneLine_mapKind {d : Defect} {f : Place → String → String} (h : OneLine d.message)
    (hf : ∀ w kind, OneLine kind → OneLine (f w kind)) : OneLine (d.mapKind f).message := by
  have hsplit {front back : String} (h : OneLine (front ++ back)) :
      OneLine front ∧ OneLine back := by
    rw [OneLine, String.toList_append, List.mem_append, not_or] at h
    exact h
  cases d with
  | unknownDefinitionKind w kind | unknownExpressionKind w kind =>
    obtain ⟨hplace, hkind⟩ := hsplit h
    exact hplace.append (hf w kind hkind)
  | _ => exact h

end TypeCatalog.Layout

namespace TypeCatalog.Document

open Value Loaded Place Layout

/-! ## Places -/

/-- The keys of every kind of type expression are words. -/
theorem exprFields_oneLine (k : ExprKind) : ∀ f ∈ exprFields k, OneLine f.key := by
  cases k <;> decide

/-- The keys of every kind of definition are words. -/
theorem definitionFields_oneLine (k : DefinitionKind) :
    ∀ f ∈ definitionFields k, OneLine f.key := by
  cases k <;> decide

/-- The keys that belong to a role stand on one line. -/
theorem Role.oneLine_key {r : Role} {es : List (Value × Value)} {f : Field}
    (h : f ∈ r.fields es) : OneLine f.key := by
  have hexpr (h : f ∈ Role.fields es .expression) : OneLine f.key := by
    obtain rfl | h := List.mem_cons.mp h
    · decide
    · obtain ⟨k, hk⟩ := exists_mem_of_mem_kindFields h
      exact exprFields_oneLine k f hk
  induction r with
  | expression => exact hexpr h
  | body => exact hexpr h
  | definition =>
    obtain rfl | h := List.mem_cons.mp h
    · decide
    obtain rfl | h := List.mem_cons.mp h
    · decide
    · obtain ⟨k, hk⟩ := exists_mem_of_mem_kindFields h
      exact definitionFields_oneLine k f hk
  | property =>
    have keys : ∀ f ∈ Role.fields [] .property, OneLine f.key := by decide
    exact keys f h
  | member =>
    have keys : ∀ f ∈ Role.fields [] .member, OneLine f.key := by decide
    exact keys f h
  | orNull r ih => exact ih h
  | _ => nomatch h

theorem oneLine_indexStep (i : Nat) : OneLine (stepText (.index i)) :=
  (OneLine.append (by decide) (oneLine_natText i)).append (by decide)

theorem oneLine_keyStep {key : String} (h : OneLine key) : OneLine (stepText (.key key)) :=
  OneLine.append (by decide) h

/-- The steps to a site stand on one line: they are positions and keys of roles. -/
theorem Site.oneLine {r s : Role} {v : Value} {steps : List Step} {old : Option Value}
    (h : Site r v steps s old) : ∀ step ∈ steps, OneLine (stepText step) := by
  induction h with
  | here => exact nofun
  | missing hf _ _ _ =>
    intro step hstep
    rw [List.mem_singleton.mp hstep]
    exact oneLine_keyStep (Role.oneLine_key hf)
  | field hf _ _ _ ih =>
    exact List.forall_mem_cons.mpr ⟨oneLine_keyStep (Role.oneLine_key hf), ih⟩
  | item _ _ _ ih => exact List.forall_mem_cons.mpr ⟨oneLine_indexStep _, ih⟩

/-- So does the text of a place, if its steps do. -/
theorem oneLine_placeText {w : Place} (h : ∀ step ∈ w.steps, OneLine (stepText step)) :
    OneLine w.text := by
  refine OneLine.append (by decide) ?_
  rw [OneLine, String.toList_join]
  simpa [OneLine] using h

/-! ## Messages -/

/-- What a defect says of a place on one line is on one line. -/
theorem Tells.oneLine {d : Defect} {w : Place} {v : Option Value} (h : Tells d w v)
    (hw : OneLine w.text) : OneLine d.message := by
  obtain ⟨hplace, hbreaks⟩ := h
  cases d with
  | unreadable => nomatch hplace
  | documentNotObject => nomatch hplace
  | missingTypes => nomatch hplace
  | unknownDefinitionKind u kind =>
    obtain rfl : u = w := Option.some.inj hplace
    obtain ⟨es, -, -, hkind⟩ := hbreaks
    exact ((OneLine.append (by decide) hw).append (by decide)).append (oneLine_printed hkind)
  | unknownExpressionKind u kind =>
    obtain rfl : u = w := Option.some.inj hplace
    obtain ⟨es, -, -, hkind⟩ := hbreaks
    exact ((OneLine.append (by decide) hw).append (by decide)).append (oneLine_printed hkind)
  | _ u =>
    obtain rfl : u = w := Option.some.inj hplace
    exact OneLine.append (by decide) hw

/-- The message of a document's first defect stands on one line. -/
theorem oneLine_of_ofDocument {entries : List (Value × Value)} {d : Defect}
    (h : Catalog.ofDocument entries = .error (.defect d)) : OneLine d.message := by
  have hlist {vs : List Value} (hvs : lookup "types" entries = some (.list vs)) :
      OneLine d.message := by
    have hreading := follows_reading hvs
    rw [Follows, h] at hreading
    obtain ⟨p, hp, hfault⟩ := List.exists_of_findSome?_eq_some hreading.symm
    obtain ⟨steps, s, old, hsite, hstands⟩ := hasSite _ _ _ p hp
    exact (hstands.tells (hsite.not_ofKind rfl) hfault).oneLine (oneLine_placeText hsite.oneLine)
  rw [Catalog.ofDocument.eq_def] at h
  split at h
  · next hvs => exact hlist hvs
  · obtain rfl := LoadError.defect.inj (Except.error.inj h)
    decide

/-- A text that is not YAML is refused in fixed words. -/
theorem oneLine_of_ofYaml {text : String} {d : Defect}
    (h : ofYaml text = .error (.defect d)) : OneLine d.message := by
  rw [ofYaml] at h
  split at h
  · nomatch h
  · next fault hfault =>
    cases fault <;> cases h
    decide

/-- What a defect of a document's value is for its text stands on one line too. -/
theorem oneLine_of_ofText {path : Path} {text : String} {d d' : Defect} (hd : OneLine d.message)
    (h : (LoadError.defect d).ofText path text = .defect d') : OneLine d'.message := by
  rw [LoadError.ofText] at h
  split at h
  · next e hknot =>
    obtain rfl := LoadError.defect.inj h
    refine oneLine_mapKind ?_ fun _ _ => oneLine_unmarked _
    cases hg : knot? path text with
    | none =>
      rw [hg] at hknot
      exact Option.some.inj hknot ▸ hd
    | some g =>
      rw [hg, Option.elim_some, Defect.within?, Option.ite_none_left_eq_some] at hknot
      obtain ⟨-, hknot⟩ := hknot
      obtain rfl := Option.some.inj hknot
      refine oneLine_mapKind hd fun w kind hkind => ?_
      cases hprinted : g.kindAt? w with
      | none => exact hkind
      | some t =>
        obtain ⟨n, -, hn⟩ := Option.bind_eq_some_iff.mp hprinted
        exact oneLine_graphPrinted g hn
  · cases h

/-- **The message of every defect of a file stands on one line.** -/
theorem oneLine_of_ofFile {path : Path} {bytes : ByteArray} {d : Defect}
    (h : Catalog.ofFile path bytes = .error (.defect d)) : OneLine d.message := by
  rw [Catalog.ofFile] at h
  split at h
  · next e he =>
    obtain rfl := Except.error.inj h
    rw [ofFile] at he
    split at he
    · cases he
    split at he
    · exact oneLine_of_ofYaml he
    · rw [ofJsonOrYaml] at he
      split at he
      · cases he
      · exact oneLine_of_ofYaml he
      · cases he
  · next entries hread =>
    cases hload : Catalog.ofDocument entries with
    | ok c =>
      rw [hload] at h
      cases h
    | error e =>
      rw [hload] at h
      have herror := Except.error.inj h
      cases htext : Text.fileText? bytes with
      | none =>
        rw [ofFile, htext] at hread
        cases hread
      | some text =>
        rw [htext] at herror
        cases e with
        | defect e => exact oneLine_of_ofText (oneLine_of_ofDocument hload) herror
        | source e => cases herror
  · obtain rfl := LoadError.defect.inj (Except.error.inj h)
    decide

end TypeCatalog.Document
