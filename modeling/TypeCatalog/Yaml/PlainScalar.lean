import TypeCatalog.Text.Pattern

/-!
# Yaml/PlainScalar — the type of a plain scalar

A plain scalar has no tag and no quotes, so its text decides what it is. A `Rule` gives a type to
the texts that start with one of its characters and match its pattern; the first rule that applies
decides, and a text that no rule applies to is a string (`tagBy`). `standardRules` is the usual
table of the format. A catalog reads by `catalogRules`: words such as `yes` and `off` are common as
names, so the usual rule for truth values is taken out, and one for `true` and `false` alone is
tried after all others.
-/

namespace TypeCatalog.Yaml

open TypeCatalog.Text

/-- The type of a node. -/
inductive Tag where
  | null
  | bool
  | int
  | float
  | binary
  | timestamp
  | omap
  | pairs
  | set
  | str
  | seq
  | map
  | merge
  | value
  /-- A type that no document has. -/
  | other
  deriving DecidableEq, Repr

namespace Tag

/-- What the full names of the format's own types start with. -/
def standardStart : String := "tag:yaml.org,2002:"

/-- The names of the types. -/
def names : List (String × Tag) :=
  [("null", null), ("bool", bool), ("int", int), ("float", float), ("binary", binary),
   ("timestamp", timestamp), ("omap", omap), ("pairs", pairs), ("set", set), ("str", str),
   ("seq", seq), ("map", map), ("merge", merge), ("value", value)]

/-- The type of a full name. -/
def ofName (name : String) : Tag :=
  (names.findSome? fun (n, t) => if standardStart ++ n == name then some t else none).getD other

end Tag

/-- A rule that gives a type to plain scalars. -/
structure Rule where
  tag : Tag
  /-- The characters that such a text starts with. -/
  starts : List Char
  /-- Whether the empty text may be one. -/
  orEmpty : Bool := false
  pattern : Pattern

/-- A text without a line feed at its end. -/
def withoutLastBreak (text : List Char) : List Char :=
  if text.getLast? == some '\n' then text.dropLast else text

/-- Whether a rule applies to a text. One line feed at the end does not count; no plain scalar has
one, but a scalar in another form may be typed as if it were plain. -/
def Rule.applies (r : Rule) (text : List Char) : Bool :=
  (match text with
    | [] => r.orEmpty
    | c :: _ => r.starts.contains c) && r.pattern.matchesAll (withoutLastBreak text)

/-- The type of a text by a table of rules. -/
def tagBy (rules : List Rule) (text : List Char) : Tag :=
  ((rules.find? (·.applies text)).map (·.tag)).getD .str

namespace PlainScalar

open Pattern

/-- A sign, which may be absent. -/
def sign : Pattern := opt (oneOf "-+")

/-- A digit or an underscore. -/
def digitOrGap : Pattern := oneOf "0123456789_"

/-- An exponent with its sign. -/
def exponent : Pattern := inOrder [oneOf "eE", oneOf "-+", Pattern.some digit]

/-- Parts below sixty, each after a colon. -/
def sixtieths : Pattern := Pattern.some (inOrder [word ":", opt (oneOf "012345"), digit])

/-- Floating-point numbers, the decimal ones with a point. -/
def float : Pattern := anyOf [
  inOrder [sign, digit, many digitOrGap, word ".", many digitOrGap, opt exponent],
  inOrder [word ".", digit, many digitOrGap, opt exponent],
  inOrder [sign, digit, many digitOrGap, sixtieths, word ".", many digitOrGap],
  inOrder [sign, word ".", anyOf [word "inf", word "Inf", word "INF"]],
  inOrder [word ".", anyOf [word "nan", word "NaN", word "NAN"]]]

/-- Integers in bases two, eight, ten, sixteen and sixty. -/
def int : Pattern := anyOf [
  inOrder [sign, word "0b", Pattern.some (oneOf "01_")],
  inOrder [sign, word "0", Pattern.some (oneOf "01234567_")],
  inOrder [sign, anyOf [word "0", seq (oneOf "123456789") (many digitOrGap)]],
  inOrder [sign, word "0x", Pattern.some (oneOf "0123456789abcdefABCDEF_")],
  inOrder [sign, oneOf "123456789", many digitOrGap, sixtieths]]

/-- Two digits. -/
def twoDigits : Pattern := seq digit digit

/-- One digit or two. -/
def oneOrTwoDigits : Pattern := seq digit (opt digit)

/-- Four digits. -/
def fourDigits : Pattern := seq twoDigits twoDigits

/-- Days, and moments with their time and perhaps a distance from universal time. -/
def timestamp : Pattern := anyOf [
  inOrder [fourDigits, word "-", twoDigits, word "-", twoDigits],
  inOrder [fourDigits, word "-", oneOrTwoDigits, word "-", oneOrTwoDigits,
    anyOf [oneOf "Tt", Pattern.some (oneOf " \t")],
    oneOrTwoDigits, word ":", twoDigits, word ":", twoDigits,
    opt (seq (word ".") (many digit)),
    opt (seq (many (oneOf " \t"))
      (anyOf [word "Z", inOrder [oneOf "-+", oneOrTwoDigits, opt (seq (word ":") twoDigits)]]))]]

/-- One of some words. -/
def words (ws : List String) : Pattern := anyOf (ws.map word)

/-- The usual rule for truth values. -/
def standardBool : Rule where
  tag := .bool
  starts := "yYnNtTfFoO".toList
  pattern := words ["yes", "Yes", "YES", "no", "No", "NO", "true", "True", "TRUE",
    "false", "False", "FALSE", "on", "On", "ON", "off", "Off", "OFF"]

/-- The rule for truth values of a catalog. -/
def catalogBool : Rule where
  tag := .bool
  starts := "tTfF".toList
  pattern := words ["true", "True", "TRUE", "false", "False", "FALSE"]

/-- The usual table of the format. -/
def standardRules : List Rule := [
  standardBool,
  { tag := .float, starts := "-+0123456789.".toList, pattern := float },
  { tag := .int, starts := "-+0123456789".toList, pattern := int },
  { tag := .merge, starts := ['<'], pattern := word "<<" },
  { tag := .null, starts := ['~', 'n', 'N'], orEmpty := true,
    pattern := words ["~", "null", "Null", "NULL", ""] },
  { tag := .timestamp, starts := "0123456789".toList, pattern := timestamp },
  { tag := .value, starts := ['='], pattern := word "=" },
  -- No plain scalar starts with these, but one in quotes may be typed as if it were plain.
  { tag := .other, starts := "!&*".toList, pattern := words ["!", "&", "*"] }]

/-- The table that a catalog is read by. -/
def catalogRules : List Rule :=
  standardRules.filter (fun r => r.tag != .bool) ++ [catalogBool]

/-- The type of a plain scalar in a catalog. -/
def tag (text : String) : Tag := tagBy catalogRules text.toList

end PlainScalar

end TypeCatalog.Yaml
