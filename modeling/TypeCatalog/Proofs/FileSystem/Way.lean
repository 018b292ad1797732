import TypeCatalog.Proofs.Failure
import TypeCatalog.Proofs.FileSystem.Effects
import Mathlib.Data.List.Infix

/-!
# Proofs/FileSystem/Way — the places on the way of a path

By its names alone a path means a place (`destination`), and so does each beginning of it (`way`);
if a path leads anywhere, it leads there (`eq_destination`).  To make the directories of a path is
to make those that are missing on its way and no others (`get?_makeDirectories`), so storing
contents changes exactly these places and the one that the path means (`get?_store`).
-/

namespace TypeCatalog.FileSystem

open Failure

variable {fs after : FileSystem} {p : Path} {place target : List String} {names : List String}

/-! ## What names mean -/

/-- The place that a name means, seen from another. -/
def onward (place : List String) (name : String) : List String :=
  if name = Path.parentPart then place.dropLast else place ++ [name]

/-- The place that a path means, whatever stands there. -/
def destination (fs : FileSystem) (p : Path) : List String := p.parts.foldl onward (fs.start p)

/-- The places that the beginnings of a path mean, from where it starts to where it leads. -/
def way (fs : FileSystem) (p : Path) : List (List String) :=
  p.parts.inits.map (·.foldl onward (fs.start p))

theorem mem_way_iff : place ∈ fs.way p ↔
    ∃ names others, names ++ others = p.parts ∧ names.foldl onward (fs.start p) = place := by
  simp only [way, List.mem_map, List.mem_inits, List.IsPrefix, ← exists_and_right]

theorem destination_mem_way (fs : FileSystem) (p : Path) : fs.destination p ∈ fs.way p :=
  mem_way_iff.mpr ⟨p.parts, [], List.append_nil _, rfl⟩

theorem way_parent_subset (fs : FileSystem) (p : Path) : fs.way p.parent ⊆ fs.way p := by
  intro place hplace
  obtain ⟨names, others, hparts, rfl⟩ := mem_way_iff.mp hplace
  obtain ⟨last, hlast⟩ := List.dropLast_prefix p.parts
  refine mem_way_iff.mpr ⟨names, others ++ last, ?_, rfl⟩
  rw [← List.append_assoc, hparts]
  exact hlast

section Congr

variable (h : after.workingDirectory = fs.workingDirectory) (p : Path)

include h

/-- What names mean hangs on the working directory only. -/
theorem destination_congr : after.destination p = fs.destination p := by
  rw [destination, destination, start, start, h]

theorem way_congr : after.way p = fs.way p := by
  rw [way, way, start, start, h]

end Congr

/-! ## Where paths lead -/

theorem step_eq_ok {name : String} (h : fs.step place name = .ok target) :
    fs.get? place = some .directory ∧ target = onward place name := by
  unfold step at h
  split at h
  · next hplace =>
    split at h
    · nomatch h
    · exact ⟨hplace, (Except.ok.inj h).symm⟩
  · nomatch h
  · nomatch h

theorem walk_eq_ok (h : fs.walk place names = .ok target) : target = names.foldl onward place := by
  induction names generalizing place with
  | nil => exact (Except.ok.inj h).symm
  | cons name rest ih =>
    obtain ⟨next, hstep, hrest⟩ := bind_eq_ok.mp ((walk_cons ..).symm.trans h)
    rw [List.foldl_cons, ← (step_eq_ok hstep).2]
    exact ih hrest

/-- **If a path leads anywhere, it leads to the place that it means.** -/
theorem eq_destination (h : fs.locate p = .ok place) : place = fs.destination p :=
  walk_eq_ok (locate_eq_ok.mp h).2.2

theorem read_eq_ok {contents : ByteArray} : fs.read p = .ok contents ↔
    ∃ place, fs.locate p = .ok place ∧ fs.get? place = some (.file contents) := by
  rw [read, look]
  cases fs.locate p with
  | error e => simp
  | ok place =>
    cases hplace : fs.get? place with
    | none => simp [hplace]
    | some entry => cases entry <;> simp [hplace]

/-- On the way to a directory there are directories. -/
theorem get?_of_mem_way (h : fs.isDirectory p) (hplace : place ∈ fs.way p) :
    fs.get? place = some .directory := by
  obtain ⟨target, hlocate, htarget⟩ := isDirectory_iff.mp h
  obtain ⟨names, others, hparts, rfl⟩ := mem_way_iff.mp hplace
  obtain ⟨-, -, hwalk⟩ := locate_eq_ok.mp hlocate
  rw [← hparts, walk_append] at hwalk
  obtain ⟨next, hnames, hothers⟩ := bind_eq_ok.mp hwalk
  obtain rfl := walk_eq_ok hnames
  cases others with
  | nil =>
    obtain rfl := Except.ok.inj hothers
    exact htarget
  | cons name rest =>
    obtain ⟨_, hstep, -⟩ := bind_eq_ok.mp ((walk_cons ..).symm.trans hothers)
    exact (step_eq_ok hstep).1

/-! ## Directories that are made -/

theorem mem_way_of_makeDirectory (h : (fs.makeDirectory p).2.get? place ≠ fs.get? place) :
    place ∈ fs.way p := by
  rw [makeDirectory] at h
  split at h
  · next made hmade =>
    obtain ⟨target, htarget, -, rfl⟩ := create_eq_ok.mp hmade
    obtain rfl : place = target := by
      by_contra hne
      exact h (get?_put_of_ne hne fs _)
    exact eq_destination htarget ▸ destination_mem_way fs p
  · split at h <;> exact absurd rfl h

/-- What is made is on the way. -/
theorem mem_way_of_makeDirectoriesUpTo {n : ℕ}
    (h : (fs.makeDirectoriesUpTo p n).2.get? place ≠ fs.get? place) : place ∈ fs.way p := by
  induction n generalizing p with
  | zero => exact mem_way_of_makeDirectory h
  | succ n ih =>
    have hgrows := makeDirectoriesUpTo_grows fs p.parent n
    rw [makeDirectoriesUpTo] at h
    split at h
    · split at h
      · next made hmade =>
        rw [hmade] at hgrows
        by_cases hmid : made.get? place = fs.get? place
        · rw [← hmid] at h
          exact way_congr hgrows.workingDirectory p ▸ mem_way_of_makeDirectory h
        · exact way_parent_subset fs p (ih (by rwa [hmade]))
      · exact way_parent_subset fs p (ih h)
    · exact mem_way_of_makeDirectory h

theorem grows_of_makeDirectories {result : Except FileError Unit}
    (h : fs.makeDirectories p = (result, after)) : Grows fs after := by
  have hgrows := makeDirectoriesUpTo_grows fs p p.parts.length
  rwa [← makeDirectories, h] at hgrows

/-- **Making the directories of a path makes those that are missing on its way.** -/
theorem get?_makeDirectories (h : fs.makeDirectories p = (.ok (), after)) (place : List String) :
    after.get? place =
      if place ∈ fs.way p ∧ fs.get? place = none then some .directory else fs.get? place := by
  have hgrows := grows_of_makeDirectories h
  split
  · next hmissing =>
    refine get?_of_mem_way (isDirectory_of_makeDirectoriesUpTo h) ?_
    exact way_congr hgrows.workingDirectory p ▸ hmissing.1
  · next hnot =>
    obtain heq | ⟨hnone, hdirectory⟩ := hgrows.get? place
    · exact heq
    · have hchanged : (fs.makeDirectories p).2.get? place ≠ fs.get? place := by
        rw [h, hnone, hdirectory]
        nofun
      exact absurd ⟨mem_way_of_makeDirectoriesUpTo hchanged, hnone⟩ hnot

theorem makeDirectories_of_isDirectory (h : fs.isDirectory p) :
    fs.makeDirectories p = (.ok (), fs) := by
  obtain ⟨place, hplace, hdirectory⟩ := isDirectory_iff.mp h
  have hcreate : fs.create p = .error .occupied := by
    rw [create, hplace]
    simp only [hdirectory]
  have hmake : fs.makeDirectory p = (.ok (), fs) := by
    rw [makeDirectory, hcreate]
    simp only [h]
    rfl
  rw [makeDirectories]
  cases p.parts.length with
  | zero => exact hmake
  | succ n =>
    rw [makeDirectoriesUpTo, hcreate]
    exact hmake

/-! ## Contents that are stored -/

variable {contents : ByteArray}

/-- Contents are stored where the directories on the way have been made, at the place that the path
means. -/
theorem store_eq_ok : fs.store p contents = (.ok (), after) ↔ ∃ mid,
    fs.makeDirectories p.parent = (.ok (), mid) ∧ mid.locate p = .ok (fs.destination p) ∧
      mid.get? (fs.destination p) ≠ some .directory ∧
      mid.put (fs.destination p) (.file contents) = after := by
  have hwrite {mid : FileSystem} (hmid : fs.makeDirectories p.parent = (.ok (), mid)) :
      mid.write p contents = .ok after ↔ mid.locate p = .ok (fs.destination p) ∧
        mid.get? (fs.destination p) ≠ some .directory ∧
        mid.put (fs.destination p) (.file contents) = after := by
    rw [write_eq_ok, ← destination_congr (grows_of_makeDirectories hmid).workingDirectory]
    refine ⟨fun ⟨place, hplace, hrest⟩ => ?_, fun ⟨hplace, hrest⟩ => ⟨_, hplace, hrest⟩⟩
    obtain rfl := eq_destination hplace
    exact ⟨hplace, hrest⟩
  unfold store
  constructor
  · intro h
    split at h
    · nomatch h
    · next mid hmid =>
      split at h
      · nomatch h
      · next written hwritten =>
        obtain rfl := (Prod.mk.inj h).2
        exact ⟨mid, hmid, (hwrite hmid).mp hwritten⟩
  · rintro ⟨mid, hmid, hrest⟩
    rw [hmid]
    simp only [(hwrite hmid).mpr hrest]

/-- **Storing contents puts them at the place that the path means, and makes the directories that
are missing on the way there.**  All else is as it was. -/
theorem get?_store (h : fs.store p contents = (.ok (), after)) (place : List String) :
    after.get? place =
      if place = fs.destination p then some (.file contents)
      else if place ∈ fs.way p.parent ∧ fs.get? place = none then some .directory
      else fs.get? place := by
  obtain ⟨mid, hmid, -, -, rfl⟩ := store_eq_ok.mp h
  rw [get?_put, get?_makeDirectories hmid]

theorem get?_destination_ne_of_store (h : fs.store p contents = (.ok (), after)) :
    fs.get? (fs.destination p) ≠ some .directory := by
  obtain ⟨mid, hmid, -, hfree, -⟩ := store_eq_ok.mp h
  exact mt (grows_of_makeDirectories hmid).keepsDirectories.directory hfree

theorem keepsDirectories_of_store (h : fs.store p contents = (.ok (), after)) :
    KeepsDirectories fs after := by
  obtain ⟨mid, hmid, -, hfree, rfl⟩ := store_eq_ok.mp h
  have hmade := (grows_of_makeDirectories hmid).keepsDirectories
  have hput := keepsDirectories_put hfree (.file contents)
  exact ⟨hput.workingDirectory.trans hmade.workingDirectory,
    fun hplace => hput.directory (hmade.directory hplace)⟩

/-- **A file at another place is read as before.** -/
theorem read_of_store {q : Path} {other : ByteArray} (h : fs.store p contents = (.ok (), after))
    (hread : fs.read q = .ok other) (hne : fs.destination q ≠ fs.destination p) :
    after.read q = .ok other := by
  obtain ⟨place, hplace, hfile⟩ := read_eq_ok.mp hread
  refine read_eq_ok.mpr ⟨place, (keepsDirectories_of_store h).locate hplace, ?_⟩
  rw [← eq_destination hplace] at hne
  rw [get?_store h, if_neg hne, if_neg, hfile]
  rw [hfile]
  exact fun hmissing => nomatch hmissing.2

/-- Contents that are not stored leave at most some of these directories behind. -/
theorem mem_way_of_store_error {e : FileError} (h : fs.store p contents = (.error e, after))
    (hplace : after.get? place ≠ fs.get? place) : place ∈ fs.way p.parent := by
  have hafter : after = (fs.makeDirectories p.parent).2 := by
    unfold store at h
    split at h
    · next hfailed => rw [hfailed, ← (Prod.mk.inj h).2]
    · next hmade =>
      split at h
      · rw [hmade, ← (Prod.mk.inj h).2]
      · nomatch h
  rw [hafter, makeDirectories] at hplace
  exact mem_way_of_makeDirectoriesUpTo hplace

theorem put_put (fs : FileSystem) (place : List String) (e : Entry) :
    (fs.put place e).put place e = fs.put place e := by
  rw [put, put]
  simp [List.filter_filter]

theorem KeepsDirectories.isDirectory (h : KeepsDirectories fs after) (hp : fs.isDirectory p) :
    after.isDirectory p := by
  obtain ⟨place, hplace, hdirectory⟩ := isDirectory_iff.mp hp
  exact isDirectory_iff.mpr ⟨place, h.locate hplace, h.directory hdirectory⟩

/-- **Storing contents once more changes nothing.** -/
theorem store_again (h : fs.store p contents = (.ok (), after)) :
    after.store p contents = (.ok (), after) := by
  obtain ⟨mid, hmid, hlocate, hfree, rfl⟩ := store_eq_ok.mp h
  have hkeeps := keepsDirectories_put hfree (.file contents)
  have hparent := hkeeps.isDirectory (isDirectory_of_makeDirectoriesUpTo hmid)
  refine store_eq_ok.mpr ⟨_, makeDirectories_of_isDirectory hparent, ?_⟩
  rw [destination_congr hkeeps.workingDirectory,
    destination_congr (grows_of_makeDirectories hmid).workingDirectory]
  refine ⟨hkeeps.locate hlocate, ?_, put_put ..⟩
  rw [get?_put_self]
  nofun

end TypeCatalog.FileSystem
