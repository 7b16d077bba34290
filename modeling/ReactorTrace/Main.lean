import ReactorTrace.CommandLine

/-! The program: the command line on the files of the machine. -/

namespace ReactorTrace.Program

def usage : String :=
  "Convert a binary execution trace (<ROOT>.lft) into comma-separated text (<ROOT>.csv)\n\n" ++
  "Usage: trace_to_csv [OPTIONS] [ROOT]...\n\n" ++
  "Arguments:\n" ++
  "  [ROOT]...  Trace file root, without the .lft extension\n\n" ++
  "Options:\n" ++
  "  -o, --output <OUTPUT>                  Write the CSV here instead of <ROOT>.csv\n" ++
  "      --event-names <EVENT_NAMES>        JSON file replacing the built-in event name table\n" ++
  "      --batch-capacity <BATCH_CAPACITY>  Largest accepted batch, in records [default: 2048]\n" ++
  "  -q, --quiet                            Do not print the start time and object table\n" ++
  "  -v, --verbose                          Log decoding progress to stderr\n" ++
  "  -h, --help                             Print help\n" ++
  "  -V, --version                          Print version\n"

def faultOf : IO.Error → IoFault
  | .noFileOrDirectory .. => .notFound
  | .inappropriateType none 20 _ | .inappropriateType (some _) 20 _ => .notDirectory
  | .inappropriateType none 21 _ | .inappropriateType (some _) 21 _ => .isDirectory
  | e => .other (toString e)

def attempt {α : Type} (action : IO α) : IO (Except IoFault α) := do
  try
    return .ok (← action)
  catch e =>
    return .error (faultOf e)

def files : FileAccess IO where
  Opened := IO.FS.Handle
  Created := IO.FS.Handle
  openFile path := attempt (IO.FS.Handle.mk path .read)
  createFile path := attempt (IO.FS.Handle.mk path .write)
  contents handle := do
    match ← attempt handle.readBinToEnd with
    | .ok bytes => return .plain bytes.toList
    | .error fault => return .ofBytes [] (.failure fault) .prompt
  fill handle text := do
    handle.putStr text
    handle.flush

/-- The scanner tells neither what is wrong with a text nor where. -/
def refusedText : EventNames.JsonReport where
  syntaxError := "not a JSON text"
  line := 0
  column := 0

end ReactorTrace.Program

open ReactorTrace in
def main (args : List String) : IO UInt32 := do
  let report ← CommandLine.run Program.files (fun _ => Program.refusedText) args
  IO.print report.printed
  if report.usage then IO.print Program.usage
  if let some message := report.message then IO.eprintln message
  if report.exitCode = CommandLine.refusedCode then IO.eprint Program.usage
  return report.exitCode.toUInt32
