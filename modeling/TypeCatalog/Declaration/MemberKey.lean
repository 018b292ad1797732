import TypeCatalog.Text.Digit
import TypeCatalog.Text.WordChar

/-!
# Declaration/MemberKey — names of members as keys

A name stands bare as a key unless it could not be one: it is put between quotes when it holds a
point or a hyphen, or starts with a digit or with anything but a word character.
-/

namespace TypeCatalog

open TypeCatalog.Text

/-- Whether a name is put between quotes. -/
def needsQuotes (name : String) : Bool :=
  let chars := name.toList
  chars.contains '.' || chars.contains '-' ||
    chars.head?.any fun c => isDecimalDigit c || !isWordChar c

/-- **The key of a member's name.** -/
def memberKey (name : String) : String :=
  if needsQuotes name then "\"" ++ name ++ "\"" else name

end TypeCatalog
