import TypeCatalog.Command.Write

/-!
# Proofs/FileSystem/Effects — what the operations on files change

To make directories is to put directories where nothing stood (`Grows`); to write is to put a file
where no directory stands.  Neither takes a directory away, so a path that leads somewhere still
leads there afterwards, and what was written is what is read (`Stored.read`).  Contents are not
stored for many reasons, but never because nothing stands on the way: that is made first
(`store_error`).
-/

namespace TypeCatalog.FileSystem

variable {fs mid after : FileSystem} {p : Path} {place target : List String}

/-! ## What is put -/

/-- What is put somewhere stands there, and all else stays. -/
theorem get?_put (fs : FileSystem) (place : List String) (e : Entry) (q : List String) :
    (fs.put place e).get? q = if q = place then some e else fs.get? q := by
  have others : ∀ entries : List (List String × Entry), q ≠ place →
      (entries.filter (·.1 != place)).lookup q = entries.lookup q := by
    intro entries hq
    induction entries with
    | nil => rfl
    | cons entry rest ih =>
      obtain ⟨r, e⟩ := entry
      by_cases hr : r = place
      · have hqr : (q == r) = false := beq_eq_false_iff_ne.mpr (hr ▸ hq)
        rw [List.filter_cons_of_neg (by simpa using hr), ih, List.lookup_cons, hqr]
      · rw [List.filter_cons_of_pos (by simpa using hr), List.lookup_cons, List.lookup_cons, ih]
  rw [get?, put, List.lookup_cons]
  by_cases hq : q = place
  · rw [if_pos hq, beq_iff_eq.mpr hq]
  · rw [if_neg hq, beq_eq_false_iff_ne.mpr hq]
    exact others fs.entries hq

theorem get?_put_self (fs : FileSystem) (place : List String) (e : Entry) :
    (fs.put place e).get? place = some e := by
  rw [get?_put, if_pos rfl]

theorem get?_put_of_ne {q : List String} (h : q ≠ place) (fs : FileSystem) (e : Entry) :
    (fs.put place e).get? q = fs.get? q := by
  rw [get?_put, if_neg h]

/-! ## Where paths lead -/

/-- One name further from a place. -/
def step (fs : FileSystem) (place : List String) (name : String) :
    Except FileFault (List String) :=
  match fs.get? place with
  | some .directory =>
    if nameLimit < name.utf8ByteSize then .error .tooLong
    else .ok (if name = Path.parentPart then place.dropLast else place ++ [name])
  | some (.file _) => .error .notDirectory
  | none => .error .missing

theorem walk_cons (fs : FileSystem) (place : List String) (name : String) (rest : List String) :
    fs.walk place (name :: rest) = fs.step place name >>= (fs.walk · rest) := by
  rw [walk, step]
  cases fs.get? place with
  | none => rfl
  | some e =>
    cases e with
    | file contents => rfl
    | directory => by_cases hlimit : nameLimit < name.utf8ByteSize <;> simp only [hlimit] <;> rfl

/-- A way of names is gone in two parts. -/
theorem walk_append (fs : FileSystem) (place : List String) (names others : List String) :
    fs.walk place (names ++ others) = fs.walk place names >>= (fs.walk · others) := by
  induction names generalizing place with
  | nil => rfl
  | cons name rest ih =>
    rw [List.cons_append, walk_cons, walk_cons, bind_assoc]
    exact bind_congr fun q => ih q

/-- Nothing is missing for a step out of a directory that is there. -/
theorem step_ne_missing {name : String} (h : fs.get? place = some .directory) :
    fs.step place name ≠ .error .missing := by
  rw [step, h]
  dsimp only
  split <;> nofun

/-- Every directory is still there. -/
structure KeepsDirectories (fs after : FileSystem) : Prop where
  workingDirectory : after.workingDirectory = fs.workingDirectory
  directory : ∀ {place}, fs.get? place = some .directory → after.get? place = some .directory

theorem KeepsDirectories.step (h : KeepsDirectories fs after) {name : String}
    (hstep : fs.step place name = .ok target) : after.step place name = .ok target := by
  rw [FileSystem.step] at hstep ⊢
  split at hstep
  · next hplace => rwa [h.directory hplace]
  · nomatch hstep
  · nomatch hstep

/-- A way that leads somewhere still leads there if no directory is taken away. -/
theorem KeepsDirectories.walk (h : KeepsDirectories fs after) {names : List String}
    (hwalk : fs.walk place names = .ok target) : after.walk place names = .ok target := by
  induction names generalizing place with
  | nil => exact hwalk
  | cons name rest ih =>
    rw [walk_cons] at hwalk ⊢
    cases hstep : fs.step place name with
    | error e =>
      rw [hstep] at hwalk
      nomatch hwalk
    | ok q =>
      rw [hstep] at hwalk
      rw [h.step hstep]
      exact ih hwalk

/-- A path leads somewhere if its names may be names of files, it is not too long, and its way leads
there. -/
theorem locate_eq_ok : fs.locate p = .ok place ↔
    (p.parts.any fun name => name.toList.contains '\x00') = false ∧
      ¬ pathLimit < p.text.utf8ByteSize ∧ fs.walk (fs.start p) p.parts = .ok place := by
  rw [locate]
  cases p.parts.any fun name => name.toList.contains '\x00' with
  | true => exact ⟨nofun, fun h => nomatch h.1⟩
  | false =>
    by_cases hlimit : pathLimit < p.text.utf8ByteSize
    · simp [hlimit]
    · simp [hlimit]

/-- **A path still leads where it led.** -/
theorem KeepsDirectories.locate (h : KeepsDirectories fs after) (hp : fs.locate p = .ok place) :
    after.locate p = .ok place := by
  obtain ⟨hname, hlimit, hwalk⟩ := locate_eq_ok.mp hp
  refine locate_eq_ok.mpr ⟨hname, hlimit, ?_⟩
  rw [start, h.workingDirectory]
  exact h.walk hwalk

/-- A path is that of a directory if it leads to a place where one stands. -/
theorem isDirectory_iff :
    fs.isDirectory p ↔ ∃ place, fs.locate p = .ok place ∧ fs.get? place = some .directory := by
  rw [isDirectory, look]
  cases fs.locate p with
  | error e => simp
  | ok place =>
    cases hplace : fs.get? place with
    | none => simp [hplace]
    | some e => cases e <;> simp [hplace]

/-- From a directory there is a step to everything in it. -/
theorem locate_ne_missing (h : fs.isDirectory p.parent) : fs.locate p ≠ .error .missing := by
  obtain ⟨place, hplace, hdirectory⟩ := isDirectory_iff.mp h
  obtain ⟨-, -, hwalk⟩ := locate_eq_ok.mp hplace
  rw [locate]
  split
  · nofun
  split
  · nofun
  obtain hparts | ⟨front, name, hparts⟩ := List.eq_nil_or_concat p.parts
  · rw [hparts]
    nofun
  · have hfront : fs.walk (fs.start p) front = .ok place := by
      rwa [Path.parent, hparts, List.concat_eq_append, List.dropLast_concat] at hwalk
    rw [hparts, List.concat_eq_append, walk_append, hfront]
    change fs.walk place [name] ≠ _
    rw [walk_cons]
    have hstep : fs.step place name ≠ .error .missing := step_ne_missing hdirectory
    cases hq : fs.step place name with
    | ok q => nofun
    | error e =>
      rw [hq] at hstep
      exact fun heq => hstep (congrArg Except.error (Except.error.inj heq))

/-! ## Directories that are made -/

/-- Directories are new where nothing stood, and nothing else has changed. -/
structure Grows (fs after : FileSystem) : Prop where
  workingDirectory : after.workingDirectory = fs.workingDirectory
  get? : ∀ place, after.get? place = fs.get? place ∨
    fs.get? place = none ∧ after.get? place = some .directory

theorem Grows.refl (fs : FileSystem) : Grows fs fs := ⟨rfl, fun _ => .inl rfl⟩

/-- Growing twice is growing. -/
theorem Grows.trans (h : Grows fs mid) (h' : Grows mid after) : Grows fs after := by
  refine ⟨h'.workingDirectory.trans h.workingDirectory, fun place => ?_⟩
  obtain hmid | ⟨hnone, hmid⟩ := h.get? place
  · rw [← hmid]
    exact h'.get? place
  · obtain hafter | ⟨hmid', -⟩ := h'.get? place
    · exact .inr ⟨hnone, hafter.trans hmid⟩
    · nomatch hmid.symm.trans hmid'

theorem Grows.put (h : fs.get? place = none) : Grows fs (fs.put place .directory) := by
  refine ⟨rfl, fun q => ?_⟩
  by_cases hq : q = place
  · exact .inr ⟨hq ▸ h, by rw [hq, get?_put_self]⟩
  · exact .inl (get?_put_of_ne hq fs _)

/-- No file comes or goes where only directories are made. -/
theorem Grows.file_iff (h : Grows fs after) (place : List String) (contents : ByteArray) :
    after.get? place = some (.file contents) ↔ fs.get? place = some (.file contents) := by
  obtain heq | ⟨hnone, hdirectory⟩ := h.get? place
  · rw [heq]
  · rw [hnone, hdirectory]
    exact iff_of_false nofun nofun

/-- What grows keeps its directories. -/
theorem Grows.keepsDirectories (h : Grows fs after) : KeepsDirectories fs after := by
  refine ⟨h.workingDirectory, fun hplace => ?_⟩
  obtain heq | ⟨hnone, -⟩ := h.get? _
  · exact heq.trans hplace
  · nomatch hnone.symm.trans hplace

/-- A directory is made where a path leads and nothing stands. -/
theorem create_eq_ok : fs.create p = .ok after ↔
    ∃ place, fs.locate p = .ok place ∧ fs.get? place = none ∧ fs.put place .directory = after := by
  rw [create]
  cases fs.locate p with
  | error e => simp
  | ok place => cases hplace : fs.get? place <;> simp [hplace]

/-- What is missing for a directory to be made is missing on the way to it. -/
theorem create_eq_missing : fs.create p = .error .missing ↔ fs.locate p = .error .missing := by
  rw [create]
  cases fs.locate p with
  | error e => simp
  | ok place => cases hplace : fs.get? place <;> simp [hplace]

/-- What a directory is made of: itself, if nothing stood there. -/
theorem makeDirectory_grows (fs : FileSystem) (p : Path) : Grows fs (fs.makeDirectory p).2 := by
  rw [makeDirectory]
  split
  · next made hmade =>
    obtain ⟨place, -, hnone, rfl⟩ := create_eq_ok.mp hmade
    exact .put hnone
  · split <;> exact .refl fs

theorem isDirectory_of_makeDirectory (h : fs.makeDirectory p = (.ok (), after)) :
    after.isDirectory p := by
  rw [makeDirectory] at h
  split at h
  · next made hmade =>
    obtain ⟨place, hplace, hnone, rfl⟩ := create_eq_ok.mp hmade
    obtain rfl := (Prod.mk.inj h).2
    refine isDirectory_iff.mpr ⟨place, ?_, get?_put_self fs place _⟩
    exact (Grows.put hnone).keepsDirectories.locate hplace
  · split at h
    · next hdirectory =>
      obtain rfl := (Prod.mk.inj h).2
      exact (Bool.and_eq_true_iff.mp hdirectory).2
    · nomatch h

theorem locate_of_makeDirectory_missing {e : FileError}
    (h : (fs.makeDirectory p).1 = .error e) (he : e.fault = .missing) :
    fs.locate p = .error .missing := by
  rw [makeDirectory] at h
  split at h
  · nomatch h
  · next fault hfault =>
    split at h
    · nomatch h
    · obtain rfl := Except.error.inj h
      obtain rfl : fault = .missing := he
      exact create_eq_missing.mp hfault

/-- **To make directories is to grow**, by induction on how many may have to be made first. -/
theorem makeDirectoriesUpTo_grows (fs : FileSystem) (p : Path) (n : Nat) :
    Grows fs (fs.makeDirectoriesUpTo p n).2 := by
  induction n generalizing p with
  | zero => exact makeDirectory_grows fs p
  | succ n ih =>
    rw [makeDirectoriesUpTo]
    split
    · have hparent := ih p.parent
      split
      · next made hmade =>
        rw [hmade] at hparent
        exact hparent.trans (makeDirectory_grows made p)
      · exact hparent
    · exact makeDirectory_grows fs p

/-- If directories are made, the path leads to one. -/
theorem isDirectory_of_makeDirectoriesUpTo {n : Nat}
    (h : fs.makeDirectoriesUpTo p n = (.ok (), after)) : after.isDirectory p := by
  cases n with
  | zero => exact isDirectory_of_makeDirectory h
  | succ n =>
    rw [makeDirectoriesUpTo] at h
    split at h
    · split at h
      · exact isDirectory_of_makeDirectory h
      · next hfailed => exact absurd h (hfailed after)
    · exact isDirectory_of_makeDirectory h

/-- The path without its last part has one part less to make. -/
theorem fault_of_makeDirectoriesUpTo {n : Nat} {e : FileError} (hn : p.parts.length = n)
    (h : (fs.makeDirectoriesUpTo p n).1 = .error e) : e.fault ≠ .missing := by
  induction n generalizing p with
  | zero =>
    intro he
    have hlocate := locate_of_makeDirectory_missing h he
    rw [locate, List.length_eq_zero_iff.mp hn] at hlocate
    split at hlocate
    · nomatch hlocate
    · split at hlocate <;> nomatch hlocate
  | succ n ih =>
    have hparent : p.parent.parts.length = n := by
      rw [Path.parent, List.length_dropLast, hn, Nat.add_sub_cancel]
    rw [makeDirectoriesUpTo] at h
    split at h
    · split at h
      · next made hmade =>
        intro he
        have hdirectory := isDirectory_of_makeDirectoriesUpTo hmade
        exact locate_ne_missing hdirectory (locate_of_makeDirectory_missing h he)
      · exact ih hparent h
    · next hcreate =>
      intro he
      exact hcreate (create_eq_missing.mpr (locate_of_makeDirectory_missing h he))

/-! ## Files that are written -/

/-- Contents are stored: the directories on the way are made, and then they are put where the path
leads, where no directory stands. -/
structure Stored (fs : FileSystem) (p : Path) (contents : ByteArray) (target : List String)
    (after : FileSystem) : Prop where
  located : after.locate p = .ok target
  contents : after.get? target = some (.file contents)
  noDirectory : fs.get? target ≠ some .directory
  others : ∀ place, place ≠ target → after.get? place = fs.get? place ∨
    fs.get? place = none ∧ after.get? place = some .directory

/-- A file is written where a path leads to no directory. -/
theorem write_eq_ok {contents : ByteArray} : fs.write p contents = .ok after ↔
    ∃ place, fs.locate p = .ok place ∧ fs.get? place ≠ some .directory ∧
      fs.put place (.file contents) = after := by
  rw [write]
  cases fs.locate p with
  | error e => simp
  | ok place =>
    cases hplace : fs.get? place with
    | none => simp [hplace]
    | some e => cases e <;> simp [hplace]

/-- What is put where no directory stands keeps all directories. -/
theorem keepsDirectories_put (h : fs.get? place ≠ some .directory) (e : Entry) :
    KeepsDirectories fs (fs.put place e) := by
  refine ⟨rfl, fun {q} hq => ?_⟩
  have hne : q ≠ place := by
    rintro rfl
    exact h hq
  rw [get?_put_of_ne hne, hq]

/-- A write into a directory that is there does not fail for anything missing. -/
theorem write_error_fault {contents : ByteArray} {e : FileError} (hp : fs.isDirectory p.parent)
    (h : fs.write p contents = .error e) : e.fault ≠ .missing := by
  rw [write] at h
  split at h
  · next fault hfault =>
    obtain rfl := Except.error.inj h
    exact fun he => locate_ne_missing hp (hfault.trans (congrArg _ he))
  · split at h
    · obtain rfl := Except.error.inj h
      nofun
    · nomatch h

/-- **What is stored is there, and all else is as it was but for new directories.** -/
theorem stored_of_store {contents : ByteArray} (h : fs.store p contents = (.ok (), after)) :
    ∃ target, Stored fs p contents target after := by
  have hgrows := makeDirectoriesUpTo_grows fs p.parent p.parent.parts.length
  rw [store, makeDirectories] at h
  split at h
  · nomatch h
  · next mid hmid =>
    rw [hmid] at hgrows
    split at h
    · nomatch h
    · next written hwritten =>
      obtain ⟨target, htarget, hfree, rfl⟩ := write_eq_ok.mp hwritten
      obtain rfl := (Prod.mk.inj h).2
      refine ⟨target, (keepsDirectories_put hfree _).locate htarget, get?_put_self mid target _,
        fun hdirectory => hfree (hgrows.keepsDirectories.directory hdirectory), fun place hne => ?_⟩
      rw [get?_put_of_ne hne]
      exact hgrows.get? place

/-- **What is not stored changes no file, and not because something is missing.** -/
theorem store_error {contents : ByteArray} {e : FileError}
    (h : fs.store p contents = (.error e, after)) : Grows fs after ∧ e.fault ≠ .missing := by
  have hgrows := makeDirectoriesUpTo_grows fs p.parent p.parent.parts.length
  rw [store, makeDirectories] at h
  split at h
  · next hfailed =>
    obtain ⟨he, rfl⟩ := Prod.mk.inj h
    obtain rfl := Except.error.inj he
    rw [hfailed] at hgrows
    exact ⟨hgrows, fault_of_makeDirectoriesUpTo rfl (congrArg Prod.fst hfailed)⟩
  · next mid hmid =>
    rw [hmid] at hgrows
    split at h
    · next hwrite =>
      obtain ⟨he, rfl⟩ := Prod.mk.inj h
      obtain rfl := Except.error.inj he
      exact ⟨hgrows, write_error_fault (isDirectory_of_makeDirectoriesUpTo hmid) hwrite⟩
    · nomatch h

/-- **What was stored is what is read.** -/
theorem Stored.read {contents : ByteArray} (h : Stored fs p contents target after) :
    after.read p = .ok contents := by
  rw [FileSystem.read, look, h.located]
  simp only [h.contents]

end TypeCatalog.FileSystem
