import TypeCatalog.FileSystem.Path

/-!
# FileSystem/Basic — files, directories and what is done to them

A `FileSystem` maps places to what stands there; a place is the list of names that lead to it from
the root. A `Path` is followed name by name (`FileSystem.locate`), and each place on the way must be
a directory. `read`, `makeDirectory`, `makeDirectories` and `write` are the only operations; the two
that make directories also say what has changed when they fail on the way.
-/

namespace TypeCatalog

/-- What stands at a place. -/
inductive Entry where
  | file (contents : ByteArray)
  | directory

/-- Files are the same if their bytes are. -/
instance : DecidableEq Entry
  | .file a, .file b => match ByteArray.instDecidableEq a b with
    | .isTrue h => .isTrue (congrArg Entry.file h)
    | .isFalse h => .isFalse fun heq => h (Entry.file.inj heq)
  | .file _, .directory => .isFalse nofun
  | .directory, .file _ => .isFalse nofun
  | .directory, .directory => .isTrue rfl

/-- Why an operation on a path fails. -/
inductive FileFault where
  /-- Nothing stands there, or on the way there. -/
  | missing
  /-- Something on the way is no directory. -/
  | notDirectory
  /-- A directory stands where a file is wanted. -/
  | isDirectory
  /-- Something stands there already. -/
  | occupied
  /-- The path holds a character that no name has. -/
  | badName
  /-- A name on the way, or the path, is longer than any may be. -/
  | tooLong
  deriving DecidableEq, Repr

/-- A fault, and the path where it showed. -/
structure FileError where
  fault : FileFault
  path : Path
  deriving DecidableEq, Repr

/-- Files and directories, and the directory that relative paths start from. -/
structure FileSystem where
  entries : List (List String × Entry)
  workingDirectory : List String

namespace FileSystem

/-- What stands at a place. -/
def get? (fs : FileSystem) (place : List String) : Option Entry := fs.entries.lookup place

/-- Puts something at a place. -/
def put (fs : FileSystem) (place : List String) (e : Entry) : FileSystem :=
  { fs with entries := (place, e) :: fs.entries.filter (·.1 != place) }

/-- Takes away what stands at a place. -/
def erase (fs : FileSystem) (place : List String) : FileSystem :=
  { fs with entries := fs.entries.filter (·.1 != place) }

/-! ## Places of paths -/

/-- The most bytes that a name may have. -/
def nameLimit : Nat := 255

/-- The most bytes that a path may have. -/
def pathLimit : Nat := 4095

/-- Follows names from a place. -/
def walk (fs : FileSystem) : List String → List String → Except FileFault (List String)
  | place, [] => .ok place
  | place, name :: rest =>
    match fs.get? place with
    | some .directory =>
      if nameLimit < name.utf8ByteSize then .error .tooLong
      else walk fs (if name = Path.parentPart then place.dropLast else place ++ [name]) rest
    | some (.file _) => .error .notDirectory
    | none => .error .missing

/-- Where a path starts. -/
def start (fs : FileSystem) (p : Path) : List String :=
  if p.root = "" then fs.workingDirectory else []

/-- **The place that a path leads to.** Nothing need stand there. -/
def locate (fs : FileSystem) (p : Path) : Except FileFault (List String) :=
  if p.parts.any fun name => name.toList.contains '\x00' then .error .badName
  else if pathLimit < p.text.utf8ByteSize then .error .tooLong
  else fs.walk (fs.start p) p.parts

/-- What stands where a path leads. -/
def look (fs : FileSystem) (p : Path) : Except FileFault Entry :=
  match fs.locate p with
  | .error e => .error e
  | .ok place =>
    match fs.get? place with
    | some e => .ok e
    | none => .error .missing

/-- Whether a path leads to a directory. -/
def isDirectory (fs : FileSystem) (p : Path) : Bool := fs.look p matches .ok .directory

/-! ## Operations -/

/-- The contents of a file. -/
def read (fs : FileSystem) (p : Path) : Except FileError ByteArray :=
  match fs.look p with
  | .ok (.file contents) => .ok contents
  | .ok .directory => .error ⟨.isDirectory, p⟩
  | .error e => .error ⟨e, p⟩

/-- Makes a directory where nothing stands yet. -/
def create (fs : FileSystem) (p : Path) : Except FileFault FileSystem :=
  match fs.locate p with
  | .error e => .error e
  | .ok place =>
    match fs.get? place with
    | some _ => .error .occupied
    | none => .ok (fs.put place .directory)

/-- Makes a directory, unless there is one. -/
def makeDirectory (fs : FileSystem) (p : Path) : Except FileError Unit × FileSystem :=
  match fs.create p with
  | .ok after => (.ok (), after)
  | .error e =>
    if e != .missing && fs.isDirectory p then (.ok (), fs) else (.error ⟨e, p⟩, fs)

/-- Makes the directory of a path that has so many parts, after those on the way that are
missing. -/
def makeDirectoriesUpTo (fs : FileSystem) (p : Path) : Nat → Except FileError Unit × FileSystem
  | 0 => fs.makeDirectory p
  | n + 1 =>
    match fs.create p with
    | .error .missing =>
      match fs.makeDirectoriesUpTo p.parent n with
      | (.ok (), after) => after.makeDirectory p
      | failed => failed
    | _ => fs.makeDirectory p

/-- **Makes a directory with all directories on the way to it.** -/
def makeDirectories (fs : FileSystem) (p : Path) : Except FileError Unit × FileSystem :=
  fs.makeDirectoriesUpTo p p.parts.length

/-- Opens a file in a directory that exists, which takes away what it held before, and writes it. -/
def write (fs : FileSystem) (p : Path) (contents : ByteArray) : Except FileError FileSystem :=
  match fs.locate p with
  | .error e => .error ⟨e, p⟩
  | .ok place =>
    match fs.get? place with
    | some .directory => .error ⟨.isDirectory, p⟩
    | _ => .ok (fs.put place (.file contents))

end FileSystem

end TypeCatalog
