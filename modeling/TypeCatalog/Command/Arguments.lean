import TypeCatalog.FileSystem.Path
import TypeCatalog.Text.Digit
import TypeCatalog.Text.Pattern
import TypeCatalog.Text.Quoted

/-!
# Command/Arguments — what a command line asks for

A command line is a list of arguments. First each argument is told apart by its form alone
(`Argument.ofText`): an option by name, by the start of its name, or with text attached to it; the
separator `--`, after which there are no options; or a plain value. Then they are taken from left to
right (`takeAll`): the first value is the catalog, an option that needs a value takes the next
argument, and the text attached to a short option without a value names further short options.

The result is an `Invocation`: a run with its `Options`, a wish for help, or a `UsageError`.
-/

namespace TypeCatalog.Command

open TypeCatalog.Text

/-! ## Options -/

/-- The options. -/
inductive Flag where
  | help
  | output
  | namespaceName
  | enumAsUnion
  | verbose
  | logJson
  deriving DecidableEq, Repr

namespace Flag

/-- The names of the options. -/
def names : List (String × Flag) :=
  [("-h", help), ("--help", help), ("-o", output), ("--output", output),
   ("--namespace", namespaceName), ("--enum-as-union", enumAsUnion), ("-v", verbose),
   ("--verbose", verbose), ("--log-json", logJson)]

/-- The option of a name. -/
def ofName? (name : String) : Option Flag := names.lookup name

/-- Whether an option needs a value. -/
def takesValue : Flag → Bool
  | output => true
  | namespaceName => true
  | _ => false

/-- All names of an option, as messages give them. -/
def title (f : Flag) : String := "/".intercalate ((names.filter (·.2 = f)).map (·.1))

end Flag

/-- What is wrong with a command line. -/
inductive UsageError where
  /-- Arguments that are needed were not given. -/
  | missing (titles : List String)
  /-- No value follows an option that needs one. -/
  | noValue (flag : Flag)
  /-- Text is attached to an option that takes none. -/
  | attachedText (flag : Flag) (text : String)
  /-- The start of a name is that of several options. -/
  | ambiguous (argument : String) (names : List String)
  /-- Arguments are left over. -/
  | unrecognized (arguments : List String)
  deriving DecidableEq, Repr

/-- What is wrong, in words. -/
def UsageError.message : UsageError → String
  | missing titles => "the following arguments are required: " ++ ", ".intercalate titles
  | noValue flag => "argument " ++ flag.title ++ ": expected one argument"
  | attachedText flag text =>
    "argument " ++ flag.title ++ ": ignored explicit argument " ++ quoted text
  | ambiguous argument names =>
    "ambiguous option: " ++ argument ++ " could match " ++ ", ".intercalate names
  | unrecognized arguments => "unrecognized arguments: " ++ " ".intercalate arguments

/-- The mark that ends all options, as it is written. -/
def separatorText : String := "--"

/-- The value of an option. -/
inductive OptionValue where
  | text (s : String)
  /-- What is left of a value that is the mark itself: the mark is taken out. -/
  | nothing
  deriving DecidableEq, Repr

namespace OptionValue

/-- The value of an option from the text attached to it. -/
def ofText (s : String) : OptionValue := if s = separatorText then nothing else text s

/-- A value in a text; nothing shows as empty brackets. -/
def shown : OptionValue → String
  | text s => s
  | nothing => "[]"

/-- The path of a value, unless nothing is left of it. -/
def path? : OptionValue → Option Path
  | text s => some (.ofText s)
  | nothing => none

end OptionValue

/-! ## The form of an argument -/

/-- An argument by its form. -/
inductive Argument where
  | value (text : String)
  /-- The mark that ends all options. -/
  | separator
  /-- An option by its full name; whether that is one of the short names; and the text that stands
  in the same argument with it. -/
  | option (flag : Flag) (short : Bool) (attached : Option (List Char))
  /-- An argument of the form of an option that is none. -/
  | unknown (text : String)
  deriving DecidableEq, Repr

/-- Whether a name is one of the short names, of one letter. -/
def isShort (name : String) : Bool := (name.toList.drop 1).head? != some '-'

/-- Splits a text at its first equals sign, if it has one. -/
def splitSign (text : List Char) : List Char × Option (List Char) :=
  match text.dropWhile (· != '=') with
  | [] => (text, none)
  | _ :: rest => (text.takeWhile (· != '='), some rest)

/-- Negative numbers, which are values although they start with a hyphen. -/
def negativeNumber : Pattern :=
  let digit := Pattern.char isDecimalDigit
  Pattern.inOrder
    [Pattern.word "-",
     Pattern.or (Pattern.some digit)
       (Pattern.inOrder [Pattern.many digit, Pattern.word ".", Pattern.some digit]),
     Pattern.opt (Pattern.word "\n")]

/-- The readings of an argument as an option by the start of a long name, or as a short option with
text attached. Each comes with the full name. -/
def readings (text : List Char) : List (String × Argument) :=
  match text with
  | '-' :: '-' :: _ =>
    let (start, attached) := splitSign text
    (Flag.names.filter fun (name, _) => start.isPrefixOf name.toList).map fun (name, flag) =>
      (name, .option flag (isShort name) attached)
  | '-' :: c :: rest =>
    let name := String.ofList ['-', c]
    match Flag.ofName? name with
    | some flag => [(name, .option flag true (some rest))]
    | none => []
  | _ => []

/-- An argument that starts with a hyphen and has more after it. -/
def hyphenArgument (text : String) : Except UsageError Argument :=
  let chars := text.toList
  match Flag.ofName? text with
  | some flag => .ok (.option flag (isShort text) none)
  | none =>
    let (start, attached) := splitSign chars
    match attached, Flag.ofName? (String.ofList start) with
    | some after, some flag => .ok (.option flag (isShort text) (some after))
    | _, _ =>
      match readings chars with
      | [(_, reading)] => .ok reading
      | [] =>
        if negativeNumber.matchesAll chars || chars.contains ' ' then .ok (.value text)
        else .ok (.unknown text)
      | several => .error (.ambiguous text (several.map (·.1)))

/-- The form of an argument before the separator. -/
def Argument.ofText (text : String) : Except UsageError Argument :=
  match text.toList with
  | '-' :: _ :: _ => hyphenArgument text
  | _ => .ok (.value text)

/-- The forms of all arguments. -/
def Argument.ofTexts : List String → Except UsageError (List Argument)
  | [] => .ok []
  | text :: rest =>
    if text = separatorText then .ok (.separator :: rest.map .value)
    else do
      let a ← Argument.ofText text
      let others ← Argument.ofTexts rest
      return a :: others

/-! ## Taking arguments -/

/-- What has been taken so far. -/
structure Taken where
  catalog : Option String := none
  output : Option OptionValue := none
  namespaceName : OptionValue := .text "T"
  enumAsUnion : Bool := false
  verbose : Bool := false
  logJson : Bool := false
  /-- The arguments that nothing takes. -/
  extra : List String := []
  deriving DecidableEq, Repr

/-- An option with its value, or without. -/
def Taken.set (t : Taken) (flag : Flag) (value : OptionValue) : Taken :=
  match flag with
  | .help => t
  | .output => { t with output := some value }
  | .namespaceName => { t with namespaceName := value }
  | .enumAsUnion => { t with enumAsUnion := true }
  | .verbose => { t with verbose := true }
  | .logJson => { t with logJson := true }

/-- The options that one argument gives, each with its value, if it needs one; and the arguments
after it. -/
structure Group where
  flags : List (Flag × OptionValue)
  rest : List Argument

/-- The value of an option that stands in an argument of its own. -/
def nextValue (flag : Flag) : List Argument → Except UsageError Group
  | .value text :: rest => .ok { flags := [(flag, .text text)], rest }
  | _ => .error (.noValue flag)

/-- Reads an option that ends its argument. -/
def lastOption (rest : List Argument) (flag : Flag) : Except UsageError Group :=
  if flag.takesValue then nextValue flag rest else .ok { flags := [(flag, .nothing)], rest }

/-- Reads an option with the text attached to it: its value, if it needs one. Otherwise, if it is
given by a short name, the first character names the next option, and what follows is attached to
that in turn. An equals sign is a character like any other here. -/
def attachedOption (rest : List Argument) : Bool → Flag → List Char → Except UsageError Group
  | _, flag, [] =>
    if flag.takesValue then .ok { flags := [(flag, .ofText "")], rest }
    else .error (.attachedText flag "")
  | short, flag, c :: more =>
    let text := String.ofList (c :: more)
    if flag.takesValue then .ok { flags := [(flag, .ofText text)], rest }
    else
      match if short then Flag.ofName? (String.ofList ['-', c]) else none with
      | none => .error (.attachedText flag text)
      | some next =>
        let others :=
          if more.isEmpty then lastOption rest next else attachedOption rest true next more
        others.map fun g => { g with flags := (flag, .nothing) :: g.flags }

/-- Reads an option with what is attached to it, if anything is. -/
def group (rest : List Argument) (short : Bool) (flag : Flag) :
    Option (List Char) → Except UsageError Group
  | none => lastOption rest flag
  | some text => attachedOption rest short flag text

/-- What a command line asks for. -/
inductive Invocation where
  | help
  | usage (e : UsageError)
  | taken (t : Taken)
  deriving DecidableEq, Repr

/-- Takes arguments from left to right. The fuel is their number. -/
def takeAll : Nat → List Argument → Taken → Invocation
  | _, [], t => .taken t
  | 0, _ :: _, t => .taken t
  | fuel + 1, .value text :: rest, t =>
    match t.catalog, rest with
    | none, .separator :: rest => takeAll fuel rest { t with catalog := some text }
    | none, rest => takeAll fuel rest { t with catalog := some text }
    | some _, rest => takeAll fuel rest { t with extra := t.extra ++ [text] }
  | fuel + 1, .separator :: rest, t =>
    match t.catalog, rest with
    | none, .value text :: rest => takeAll fuel rest { t with catalog := some text }
    | _, rest => takeAll fuel rest { t with extra := t.extra ++ [separatorText] }
  | fuel + 1, .unknown text :: rest, t => takeAll fuel rest { t with extra := t.extra ++ [text] }
  | fuel + 1, .option flag short attached :: rest, t =>
    match group rest short flag attached with
    | .error e => .usage e
    | .ok g =>
      if g.flags.any (·.1 = .help) then .help
      else takeAll fuel g.rest (g.flags.foldl (fun t (flag, value) => t.set flag value) t)

/-- What a run is asked to do. -/
structure Options where
  catalog : Path
  /-- The file to write; none if nothing is left of the option's value. -/
  output : Option Path
  namespaceName : String
  enumAsUnion : Bool
  verbose : Bool
  logJson : Bool
  deriving DecidableEq, Repr

/-- The title of the catalog among the arguments. -/
def catalogTitle : String := "catalog"

/-- What is to be done about a command line. -/
inductive Request where
  | help
  | usage (e : UsageError)
  | run (o : Options)
  deriving DecidableEq, Repr

/-- The run that was asked for, if nothing is missing and nothing left over. -/
def Taken.request (t : Taken) : Request :=
  match t.catalog, t.output with
  | some catalog, some output =>
    if t.extra.isEmpty then
      .run {
        catalog := .ofText catalog
        output := output.path?
        namespaceName := t.namespaceName.shown
        enumAsUnion := t.enumAsUnion
        verbose := t.verbose
        logJson := t.logJson }
    else .usage (.unrecognized t.extra)
  | catalog, output =>
    .usage (.missing ((if catalog.isNone then [catalogTitle] else []) ++
      (if output.isNone then [Flag.output.title] else [])))

/-- **Reads a command line.** -/
def Request.ofArguments (arguments : List String) : Request :=
  match Argument.ofTexts arguments with
  | .error e => .usage e
  | .ok as =>
    match takeAll as.length as {} with
    | .help => .help
    | .usage e => .usage e
    | .taken t => t.request

/-! ## Texts -/

/-- How the command is called. -/
def usageText : String :=
  "usage: tsgen [-h] -o OUTPUT [--namespace NAMESPACE] [--enum-as-union] [-v]\n" ++
  "             [--log-json]\n" ++
  "             catalog\n"

/-- What the command does, and what its arguments mean. -/
def helpText : String :=
  usageText ++ "\n" ++
  "Generate TypeScript declarations from an API catalog.\n" ++
  "\n" ++
  "positional arguments:\n" ++
  "  catalog               Path to the type catalog (JSON/YAML)\n" ++
  "\n" ++
  "options:\n" ++
  "  -h, --help            show this help message and exit\n" ++
  "  -o OUTPUT, --output OUTPUT\n" ++
  "                        Output .ts file\n" ++
  "  --namespace NAMESPACE\n" ++
  "                        Name of the wrapping namespace\n" ++
  "  --enum-as-union       Render enums as string literal unions (also enabled by\n" ++
  "                        ENUM_AS_UNION)\n" ++
  "  -v, --verbose         Enable debug logging\n" ++
  "  --log-json            Emit logs as JSON lines\n"

/-- What is written about a command line that is wrong. -/
def UsageError.text (e : UsageError) : String := usageText ++ "tsgen: error: " ++ e.message ++ "\n"

end TypeCatalog.Command
