import CallNames.Cli.Folder
import CallNames.Cli.Options
import CallNames.Document.Load
import CallNames.Report.Analysis
import CallNames.Report.Text

/-!
# Running a command line

Every file is read, loaded and analyzed, and then one output is written. **If a file fails there is
no output at all**: the first failing file is named, with its cause.
-/

namespace CallNames

/-- Why a run fails: the file and the cause. -/
inductive RunError where
  | read (file : String) (cause : ReadError)
  | load (file : String) (cause : LoadError)
deriving DecidableEq, Repr, Inhabited

namespace RunError

/-- The failure in words, from what was attempted to the cause. -/
def chain : RunError → List String
  | read file cause => ["failed to read " ++ file, cause.message]
  | load file cause => ["failed to load ESTree JSON from " ++ file, cause.message]

end RunError

/-- How files are read. -/
abbrev FileReader := String → Except ReadError String

namespace FileReport

/-- Reads, loads and analyzes a file. -/
def ofFile (read : FileReader) (file : String) : Traced (Except RunError FileReport) :=
  match read file with
  | .error e => ⟨.error (.read file e), []⟩
  | .ok text => do
    match ← Document.ofText text with
    | .error e => pure (.error (.load file e))
    | .ok document =>
      let report ← ofTree file document.arena (some document.root)
      pure (.ok report)

/-- Analyzes files one after the other, up to the first that fails. -/
def ofFiles (read : FileReader) : List String → Traced (Except RunError (List FileReport))
  | [] => pure (.ok [])
  | file :: rest => do
    match ← ofFile read file with
    | .error e => pure (.error e)
    | .ok report =>
      match ← ofFiles read rest with
      | .error e => pure (.error e)
      | .ok reports => pure (.ok (report :: reports))

end FileReport

namespace Options

/-- The output for some reports. -/
def output (o : Options) (colour : Bool) (reports : List FileReport) : String :=
  match o.format, o.summary with
  | .text, false => FileReport.renderAll colour reports
  | .text, true => SummaryEntry.renderAll colour (SummaryEntry.ofReports reports)
  | .json, false => (FileReport.listToJson reports).prettyText ++ "\n"
  | .json, true => (SummaryEntry.listToJson (SummaryEntry.ofReports reports)).prettyText ++ "\n"

/-- **Runs a command line**: the whole output, or the failure. -/
def run (o : Options) (colour : Bool) (read : FileReader) : Traced (Except RunError String) := do
  let reports ← FileReport.ofFiles read o.files
  pure (reports.map (o.output colour))

end Options

end CallNames
