import CalcScript.Text.DecimalDigit
import CalcScript.Text.Quoted
import CalcScript.Text.Upper

/-!
# The command line

The program takes options and nothing else. `CommandLine.parse` decides what an argument list asks
for: a session with settings, the help text, or a complaint about misuse. A long option may be
shortened as long as one option is meant, and its value may follow an equals sign. A shortened
option that could be several is complained about first; arguments that are no options are left
over, and are complained about last, all together.
-/

namespace CalcScript

/-- The options. -/
inductive Flag where
  | help
  | calculator
  | logLevel
  deriving DecidableEq, Repr

namespace Flag

/-- All options. -/
def all : List Flag := [.help, .calculator, .logLevel]

/-- The long spelling of an option. -/
def long : Flag → String
  | .help => "--help"
  | .calculator => "--calculator"
  | .logLevel => "--log-level"

/-- How a complaint names an option. -/
def spellings : Flag → String
  | .help => "-h/--help"
  | flag => flag.long

/-- The option with exactly this spelling. -/
def ofSpelling? (text : String) : Option Flag :=
  if text = "-h" then some .help else all.find? (·.long = text)

/-- An option is found by its long spelling. -/
theorem ofSpelling?_long (flag : Flag) : ofSpelling? flag.long = some flag := by
  cases flag <;> decide

/-- The options whose long spelling begins like this. -/
def startingWith (text : String) : List Flag :=
  all.filter fun flag => text.toList.isPrefixOf flag.long.toList

end Flag

/-! ## Classes of arguments -/

/-- What an argument looks like. -/
inductive Argument where
  /-- No option. -/
  | operand (text : String)
  /-- Two dashes alone: no options follow. -/
  | separator
  /-- An option, with the value that follows its equals sign. -/
  | option (flag : Flag) (attached : Option String)
  /-- A short help option with more characters behind it. -/
  | cluster (rest : List Char)
  /-- A shortened option that could be several. -/
  | ambiguous (flags : List Flag)
  /-- An option that does not exist. -/
  | unknown

/-- The text without a line end it closes with. -/
def withoutLineEnd (text : List Char) : List Char :=
  if text.getLast? = some '\n' then text.dropLast else text

/-- Decimal digits, or decimal digits with a point among them or before them; a line end may
follow. -/
def isNumberText (text : List Char) : Bool :=
  let number := withoutLineEnd text
  let whole := number.takeWhile isDecimalDigit
  match number.dropWhile isDecimalDigit with
  | [] => !whole.isEmpty
  | '.' :: fraction => !fraction.isEmpty && fraction.all isDecimalDigit
  | _ => false

/-- The parts of a text before and after its first equals sign, if there is one. -/
def splitAtEquals (text : String) : String × Option String :=
  match text.toList.dropWhile (· ≠ '=') with
  | [] => (text, none)
  | _ :: value => (String.ofList (text.toList.takeWhile (· ≠ '=')), some (String.ofList value))

/-- An argument that begins with a dash and is no spelling of an option. -/
def classifyOther (text : String) : Argument :=
  if text.toList.drop 1 |> isNumberText then .operand text
  else if text.toList.contains ' ' then .operand text
  else .unknown

/-- The class of an argument. Behind an equals sign the short help option has characters like those
that follow it directly, if there are any. -/
def classify (text : String) : Argument :=
  match text.toList with
  | [] => .operand text
  | ['-'] => .operand text
  | ['-', '-'] => .separator
  | '-' :: second :: rest =>
    match Flag.ofSpelling? text, splitAtEquals text with
    | some flag, _ => .option flag none
    | none, (name, value) =>
      match Flag.ofSpelling? name with
      | some flag =>
        match second, value.map String.toList with
        | 'h', some (c :: others) => .cluster (c :: others)
        | _, _ => .option flag value
      | none =>
        if second = '-' then
          match Flag.startingWith name with
          | [flag] => .option flag value
          | [] => classifyOther text
          | flags => .ambiguous flags
        else if second = 'h' then .cluster rest
        else classifyOther text
  | _ => .operand text

/-- The classes of some arguments. Behind two dashes there are no options. -/
def classifyAll : List String → List (String × Argument)
  | [] => []
  | text :: rest =>
    match classify text with
    | .separator => (text, .separator) :: rest.map fun t => (t, .operand t)
    | argument => (text, argument) :: classifyAll rest

/-! ## Requests -/

/-- What a session is started with. -/
structure Settings where
  calculator : Bool
  level : String
  deriving DecidableEq, Repr

/-- What an argument list asks for. -/
inductive Request where
  | run (settings : Settings)
  | help
  | misuse (complaint : String)
  deriving DecidableEq, Repr

/-- The settings without any arguments. -/
def Settings.default : Settings := ⟨false, "WARNING"⟩

/-- The complaint about an option. -/
def misuseOf (flag : Flag) (complaint : String) : Request :=
  .misuse ("argument " ++ flag.spellings ++ ": " ++ complaint)

/-- The complaint about a value of an option that takes none. -/
def ignoredValue (flag : Flag) (value : String) : Request :=
  misuseOf flag ("ignored explicit argument " ++ quoted value)

/-- What follows from a short help option with more characters behind it: it may be repeated, and
anything else is a value it does not take. -/
def clusterRequest (rest : List Char) : Request :=
  match rest.dropWhile (· = 'h') with
  | [] => .help
  | others => ignoredValue .help (String.ofList others)

/-- Goes through the arguments with the settings so far and the arguments left over so far. Help
and complaints about options come at once. -/
def requestOf (settings : Settings) (left : List String) : List (String × Argument) → Request
  | [] =>
    if left.isEmpty then .run settings
    else .misuse ("unrecognized arguments: " ++ " ".intercalate left.reverse)
  | (_, .option .help none) :: _ => .help
  | (_, .option .help (some value)) :: _ => ignoredValue .help value
  | (_, .cluster rest) :: _ => clusterRequest rest
  | (_, .option .calculator none) :: rest =>
    requestOf { settings with calculator := true } left rest
  | (_, .option .calculator (some value)) :: _ => ignoredValue .calculator value
  | (_, .option .logLevel (some value)) :: rest =>
    requestOf { settings with level := value } left rest
  | (_, .option .logLevel none) :: (_, .operand value) :: rest =>
    requestOf { settings with level := value } left rest
  | (_, .option .logLevel none) :: _ => misuseOf .logLevel "expected one argument"
  | (text, _) :: rest => requestOf settings (text :: left) rest

/-- The complaint about a shortened option that could be several. -/
def ambiguity : String × Argument → Option String
  | (text, .ambiguous flags) =>
    some ("ambiguous option: " ++ text ++ " could match "
      ++ ", ".intercalate (flags.map Flag.long))
  | _ => none

/-- What an argument list asks for. An ambiguous option is complained about before anything
else. -/
def parseArguments (arguments : List String) : Request :=
  let classified := classifyAll arguments
  match classified.findSome? ambiguity with
  | some complaint => .misuse complaint
  | none => requestOf .default [] classified

/-! ## Texts -/

/-- The line that sums up the options. -/
def usage : String := "usage: minilang [-h] [--calculator] [--log-level LOG_LEVEL]\n"

/-- The help text. -/
def helpText : String :=
  usage ++ "\n" ++ "Interactive interpreter\n" ++ "\n" ++ "options:\n"
    ++ "  -h, --help            show this help message and exit\n"
    ++ "  --calculator          arithmetic expressions only, one per line\n"
    ++ "  --log-level LOG_LEVEL\n"
    ++ "                        logging level (default: WARNING)\n"

/-- The text of a complaint. -/
def misuseText (complaint : String) : String := usage ++ "minilang: error: " ++ complaint ++ "\n"

/-! ## Levels -/

/-- The levels of records, by name. Records of the lowest level, which are the only ones there are,
are shown at the level `DEBUG` and where no level is set. -/
def levelNames : List (String × Bool) :=
  [("CRITICAL", false), ("FATAL", false), ("ERROR", false), ("WARN", false), ("WARNING", false),
    ("INFO", false), ("DEBUG", true), ("NOTSET", true)]

/-- Whether records are shown at the level of a name, in upper or lower case. -/
def showsRecords? (name : String) : Option Bool := levelNames.lookup (upper name)

/-- The complaint about a level that does not exist. -/
def unknownLevel (name : String) : String := "Unknown level: " ++ quoted (upper name)

end CalcScript
