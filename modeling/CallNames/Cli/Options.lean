/-!
# Command-line options

Arguments are taken from left to right, and the first fault decides. A file name and the value of
`--format` are held back until the next argument shows that they are complete, and are checked only
then; `Arguments.settle` is that check.

* `--name` and `--name=value` are options; **an unknown one and a value given to a flag are refused
  at once**, before what is held back is checked;
* an argument that starts with one `-` holds one-letter options, and a lone `-` is a file name;
* `--` ends the options: all that follows is a file name;
* that there is no file at all is noticed last.
-/

namespace CallNames

/-! ## 1. Options and refusals -/

/-- How reports are written. -/
inductive OutputFormat where
  | text
  | json
deriving DecidableEq, Repr, Inhabited

namespace OutputFormat

/-- The word for a format. -/
def name : OutputFormat → String
  | text => "text"
  | json => "json"

/-- The format of a word. -/
def ofName? (s : String) : Option OutputFormat :=
  [text, json].find? fun f => f.name = s

end OutputFormat

/-- What a command line asks for. -/
structure Options where
  files : List String
  format : OutputFormat
  summary : Bool
  noColour : Bool
deriving DecidableEq, Repr, Inhabited

/-- Why a command line is not run. -/
inductive ArgumentError where
  /-- Help is asked for. -/
  | help
  /-- The version is asked for. -/
  | version
  /-- There is no file. -/
  | missingFile
  /-- A value is missing, empty or not among the allowed ones. -/
  | invalidValue
  /-- There is no such option. -/
  | unknown
  /-- An option is given twice. -/
  | repeated
  /-- A value is given to an option that takes none. -/
  | unexpectedValue
deriving DecidableEq, Repr, Inhabited

namespace ArgumentError

/-- The exit code: asking for help or the version is no failure. -/
def exitCode : ArgumentError → Nat
  | help | version => 0
  | _ => 2

end ArgumentError

/-! ## 2. Taking arguments -/

/-- What is held back. -/
inductive Pending where
  | nothing
  /-- The option `--format`, and its value once it has come. -/
  | format (value : Option String)
  /-- File names. -/
  | files (names : List String)
deriving DecidableEq, Repr, Inhabited

/-- The arguments taken so far. -/
structure Arguments where
  files : List String := []
  format : Option OutputFormat := none
  summary : Bool := false
  noColour : Bool := false
  pending : Pending := .nothing
  optionsEnded : Bool := false
deriving DecidableEq, Repr, Inhabited

/-- The options that take no value. -/
inductive Flag where
  | help
  | version
  | summary
  | noColour
deriving DecidableEq, Repr, Inhabited

namespace Flag

/-- The flag of a long option. -/
def ofLong? (s : String) : Option Flag :=
  if s = "help" then some help
  else if s = "version" then some version
  else if s = "summary" then some summary
  else if s = "no-color" then some noColour
  else none

/-- The flag of a one-letter option. -/
def ofLetter? (c : Char) : Option Flag :=
  if c = 'h' then some help else if c = 'V' then some version else none

end Flag

namespace Arguments

/-- Sets the format, once and to an allowed word. -/
def setFormat (a : Arguments) (value : String) : Except ArgumentError Arguments :=
  if a.format.isSome then .error .repeated
  else match OutputFormat.ofName? value with
    | some f => .ok { a with format := some f }
    | none => .error .invalidValue

/-- **Checks what is held back.** -/
def settle (a : Arguments) : Except ArgumentError Arguments :=
  let settled := { a with pending := .nothing }
  match a.pending with
  | .nothing => .ok settled
  | .format none => .error .invalidValue
  | .format (some value) => settled.setFormat value
  | .files names =>
    if names.any String.isEmpty then .error .invalidValue
    else .ok { settled with files := settled.files ++ names }

/-- Takes a flag. -/
def takeFlag (a : Arguments) (flag : Flag) : Except ArgumentError Arguments := do
  let a ← a.settle
  match flag with
  | .help => .error .help
  | .version => .error .version
  | .summary => if a.summary then .error .repeated else .ok { a with summary := true }
  | .noColour => if a.noColour then .error .repeated else .ok { a with noColour := true }

/-- Takes a long option, written without its dashes. -/
def takeLong (a : Arguments) (option : List Char) : Except ArgumentError Arguments :=
  let name := String.ofList (option.takeWhile (· ≠ '='))
  let value? := (option.dropWhile (· ≠ '=')).tail?.map String.ofList
  match Flag.ofLong? name, value? with
  | some _, some _ => .error .unexpectedValue
  | some flag, none => a.takeFlag flag
  | none, value? =>
    if name = "format" then do
      let a ← a.settle
      match value? with
      | some value => a.setFormat value
      | none => .ok { a with pending := .format none }
    else .error .unknown

/-- Takes one-letter options, written without their dash. -/
def takeLetters (a : Arguments) : List Char → Except ArgumentError Arguments
  | [] => .ok a
  | c :: rest =>
    match Flag.ofLetter? c with
    | some flag => do (← a.takeFlag flag).takeLetters rest
    | none => .error .unknown

/-- Takes a file name. -/
def takeFile (a : Arguments) (name : String) : Except ArgumentError Arguments :=
  match a.pending with
  | .files names => .ok { a with pending := .files (names ++ [name]) }
  | _ => do
    let a ← a.settle
    .ok { a with pending := .files [name] }

/-- Takes an argument that is no option: the value of `--format` if one is due, else a file. -/
def takeValue (a : Arguments) (value : String) : Except ArgumentError Arguments :=
  match a.pending with
  | .format none => .ok { a with pending := .format (some value) }
  | _ => a.takeFile value

/-- **Takes one argument.** -/
def take (a : Arguments) (argument : String) : Except ArgumentError Arguments :=
  if a.optionsEnded then a.takeFile argument
  else match argument.toList with
    | ['-', '-'] => .ok { a with optionsEnded := true }
    | '-' :: '-' :: option => a.takeLong option
    | '-' :: c :: rest => a.takeLetters (c :: rest)
    | _ => a.takeValue argument

/-- The options of a complete command line. -/
def options (a : Arguments) : Except ArgumentError Options := do
  let a ← a.settle
  if a.files.isEmpty then .error .missingFile
  else .ok ⟨a.files, a.format.getD .text, a.summary, a.noColour⟩

end Arguments

namespace Options

/-- **Reads a command line**, without the name of the program. -/
def ofArguments (arguments : List String) : Except ArgumentError Options := do
  (← arguments.foldlM Arguments.take {}).options

end Options

end CallNames
