import CallNames.Cli.Run
import CallNames.Log.Filter

/-!
# The command line

Reads the arguments, the environment and the files, and writes the output of the run. Output goes
to the standard output and all else to the standard error. The exit code is 0 if the run succeeds,
1 if it fails, and that of the argument error if there is one.
-/

namespace CallNames

/-- The reason of a failed read, by the number that the system gives it. -/
def readErrorOf (e : IO.Error) : ReadError :=
  match e with
  | .noFileOrDirectory _ _ _ => .missing
  | .inappropriateType _ code _ =>
    if code = 21 then .isFolder else .notAFolder
  | .invalidArgument _ code reason =>
    if code = 36 then .nameTooLong else .refused reason
  | other => .refused (toString other)

/-- Reads one file. -/
def readFile (name : String) : IO (Except ReadError String) := do
  match nameDefect? name with
  | some e => return .error e
  | none =>
    try
      return textOfBytes (← IO.FS.readBinFile name)
    catch e =>
      return .error (readErrorOf e)

/-- Reads all files of a command line beforehand. -/
def readFiles (names : List String) : IO FileReader := do
  let contents ← names.mapM fun name => return (name, ← readFile name)
  return fun name => (contents.lookup name).getD (.error .missing)

/-- A line of the log. -/
def logLine (format : LogFormat) (e : Event) : String :=
  match format with
  | .json => e.toJson.compactText
  | .text => e.level.name ++ " " ++ e.target ++ ": " ++ (Json.obj e.fields).compactText
  | .tree => e.level.name ++ " " ++ e.target ++ "\n  " ++ (Json.obj e.fields).compactText

/-- What the environment says about the log. -/
def readSettings : IO LogSettings :=
  return ⟨← IO.getEnv "JSNAMES_LOG", ← IO.getEnv "RUST_LOG", ← IO.getEnv "JSNAMES_LOG_FORMAT"⟩

/-- How the program is called. -/
def usage : String :=
  "usage: callnames [--format text|json] [--summary] [--no-color] AST_JSON..."

/-- What is said about a command line that is not run. -/
def argumentMessage : ArgumentError → String
  | .help => usage
  | .version => "callnames"
  | .missingFile => "error: no file given\n" ++ usage
  | .invalidValue => "error: invalid value\n" ++ usage
  | .unknown => "error: unknown argument\n" ++ usage
  | .repeated => "error: an option is given twice\n" ++ usage
  | .unexpectedValue => "error: a value is given to an option that takes none\n" ++ usage

/-- Runs a command line that has been read. -/
def execute (options : Options) : IO UInt32 := do
  let settings ← readSettings
  let out ← IO.getStdout
  let colour := !options.noColour && (← out.isTty)
  let result := options.run colour (← readFiles options.files)
  for e in settings.logged result.events do
    IO.eprintln (logLine settings.logFormat e)
  match result.value with
  | .ok output =>
    out.putStr output
    out.flush
    return 0
  | .error e =>
    IO.eprintln ("Error: " ++ "\n  ".intercalate e.chain)
    return 1

end CallNames

open CallNames in
/-- The program. -/
def main (arguments : List String) : IO UInt32 := do
  match Options.ofArguments arguments with
  | .ok options => execute options
  | .error e =>
    if e.exitCode = 0 then IO.println (argumentMessage e) else IO.eprintln (argumentMessage e)
    return e.exitCode.toUInt32
