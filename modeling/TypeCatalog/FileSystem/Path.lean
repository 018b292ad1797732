/-!
# FileSystem/Path — names of files and directories

A `Path` is where to start from and the components to go through. Empty components and those that
mean the same directory are dropped when a path is read; a component that means the parent is
kept, as it may stand after one that does not exist.
-/

namespace TypeCatalog

/-- A path. -/
structure Path where
  /-- What stands before the first component: nothing, or one slash or two. -/
  root : String := ""
  parts : List String := []
  deriving DecidableEq, Repr

namespace Path

/-- The component that means the parent. -/
def parentPart : String := ".."

/-- Splits a text at its slashes. -/
def splitSlashes : List Char → List (List Char)
  | [] => [[]]
  | c :: rest =>
    match splitSlashes rest with
    | [] => [[c]]
    | first :: others => if c == '/' then [] :: first :: others else (c :: first) :: others

/-- What a path starts with: exactly two slashes are kept. -/
def rootOf (chars : List Char) : String :=
  match (chars.takeWhile (· == '/')).length with
  | 0 => ""
  | 2 => "//"
  | _ => "/"

/-- The path of a text. -/
def ofText (text : String) : Path :=
  let chars := text.toList
  { root := rootOf chars
    parts := ((splitSlashes chars).map String.ofList).filter fun part =>
      part != "" && part != "." }

/-- The text of a path. -/
def text (p : Path) : String :=
  if p.root = "" ∧ p.parts = [] then "." else p.root ++ "/".intercalate p.parts

/-- The directory that a path lies in. -/
def parent (p : Path) : Path := { p with parts := p.parts.dropLast }

/-- The end of a name from its last point on, if there is something on either side of it. -/
def suffixOf (name : List Char) : List Char :=
  let ending := (name.reverse.takeWhile (· != '.')).reverse
  if ending.isEmpty || name.length ≤ ending.length + 1 then [] else '.' :: ending

/-- The suffix of the last component. -/
def suffix (p : Path) : String :=
  match p.parts.getLast? with
  | none => ""
  | some name => String.ofList (suffixOf name.toList)

end Path

end TypeCatalog
