import ReactorTrace.Conversion
import ReactorTrace.EventNames.Document
import ReactorTrace.Files.Access
import ReactorTrace.Files.Paths
import ReactorTrace.Output.Table

/-! Conversions between files. The trace is opened first, then the table is made, then the trace
is read: a missing trace leaves no table behind, and a table in the place of its own trace leaves
nothing to read. -/

namespace ReactorTrace

variable {m : Type → Type} [Monad m]

/-- The text of a file, or what keeps it from being read. -/
def readText (files : FileAccess m) (path : String) : m (Except IoFault String) := do
  match ← files.openFile path with
  | .error cause => return .error cause
  | .ok opened =>
    let source ← files.contents opened
    match source.ending with
    | .failure cause => return .error cause
    | .endOfFile =>
      match Text.Utf8.decode? source.rest with
      | some text => return .ok text
      | none => return .error .notUtf8

/-- The table of event names in a file. The JSON reader has a report on every text that it refuses. -/
def loadEventNames (files : FileAccess m) (reports : String → EventNames.JsonReport) (path : String) :
    m (Except Fault EventNames) := do
  match ← readText files path with
  | .error cause => return .error (.eventNames path cause.message)
  | .ok text =>
    match EventNames.parse text with
    | .ok table => return .ok table
    | .error defect => return .error (.eventNames path (defect.message (reports text)))

/-- The result of a conversion between files, and the text printed. -/
structure FileOutcome where
  result : Except Fault Summary
  printed : String

/-- The table gets all rows that were written, also when the conversion fails. -/
def convertFiles (files : FileAccess m) (paths : TracePaths) (config : Config) :
    m FileOutcome := do
  match ← files.openFile paths.trace with
  | .error cause => return ⟨.error (.noTrace paths.trace cause), ""⟩
  | .ok opened =>
    match ← files.createFile paths.csv with
    | .error cause => return ⟨.error (.noOutput paths.csv cause), ""⟩
    | .ok created =>
      let source ← files.contents opened
      let outcome := convert config TableText.output source (.empty none)
      files.fill created outcome.output.text
      return ⟨outcome.result, outcome.printed⟩

end ReactorTrace
