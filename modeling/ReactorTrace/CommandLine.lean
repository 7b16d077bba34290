import ReactorTrace.Files.Conversion

/-! The command line. Arguments are read from left to right, and the first one that is wrong, or
that asks for help or the version, decides. Options take their value from the same argument or from
the next; short flags may share one argument; after two dashes all arguments are roots. -/

namespace ReactorTrace.CommandLine

/-- The arguments after reading. A missing capacity stands for the standard one. -/
structure Options where
  roots : List String
  output : Option String
  eventNames : Option String
  batchCapacity : Option Nat
  quiet : Bool
  verbose : Bool
deriving DecidableEq, Inhabited

def Options.none : Options := ⟨[], .none, .none, .none, false, false⟩

/-- Why reading stops before the last argument. -/
inductive Stop
  | help
  | version
  | refused
deriving DecidableEq, Inhabited

inductive Flag
  | quiet
  | verbose
  | help
  | version
deriving DecidableEq, Inhabited

inductive ValueOption
  | output
  | eventNames
  | batchCapacity
deriving DecidableEq, Inhabited

inductive Switch
  | flag (flag : Flag)
  | option (option : ValueOption)
deriving DecidableEq, Inhabited

def longSwitch? (name : List Char) : Option Switch :=
  match String.ofList name with
  | "output" => some (.option .output)
  | "event-names" => some (.option .eventNames)
  | "batch-capacity" => some (.option .batchCapacity)
  | "quiet" => some (.flag .quiet)
  | "verbose" => some (.flag .verbose)
  | "help" => some (.flag .help)
  | "version" => some (.flag .version)
  | _ => none

def shortSwitch? : Char → Option Switch
  | 'o' => some (.option .output)
  | 'q' => some (.flag .quiet)
  | 'v' => some (.flag .verbose)
  | 'h' => some (.flag .help)
  | 'V' => some (.flag .version)
  | _ => none

/-- The largest number of 64 bits. -/
def maxCapacity : Nat := 18446744073709551615

/-- A capacity is a decimal number of 64 bits, with a plus sign or without. -/
def capacity? (value : List Char) : Option Nat :=
  let digits := match value with
    | '+' :: cs => cs
    | cs => cs
  if digits = [] ∨ digits.any (fun c => !c.isDigit) then none
  else
    let n := Json.NumberLiteral.ofDigits digits
    if n ≤ maxCapacity then some n else none

/-- A flag may be given once. -/
def setFlag (options : Options) : Flag → Except Stop Options
  | .quiet => if options.quiet then .error .refused else .ok { options with quiet := true }
  | .verbose => if options.verbose then .error .refused else .ok { options with verbose := true }
  | .help => .error .help
  | .version => .error .version

/-- An option may be given once, and a path must not be empty. -/
def setOption (options : Options) (option : ValueOption) (value : List Char) :
    Except Stop Options :=
  match option with
  | .output =>
    if options.output.isSome ∨ value = [] then .error .refused
    else .ok { options with output := some (String.ofList value) }
  | .eventNames =>
    if options.eventNames.isSome ∨ value = [] then .error .refused
    else .ok { options with eventNames := some (String.ofList value) }
  | .batchCapacity =>
    match options.batchCapacity, capacity? value with
    | none, some n => .ok { options with batchCapacity := some n }
    | _, _ => .error .refused

def addRoot (options : Options) (root : List Char) : Except Stop Options :=
  if root = [] then .error .refused
  else .ok { options with roots := options.roots ++ [String.ofList root] }

/-- The form of an argument before two dashes. -/
inductive Argument
  | dashes
  | long (name : List Char) (value : Option (List Char))
  | short (flags : List Char)
  | root (text : List Char)
deriving DecidableEq, Inhabited

def Argument.ofText : List Char → Argument
  | ['-', '-'] => dashes
  | '-' :: '-' :: cs =>
    let name := cs.takeWhile (· ≠ '=')
    match cs.dropWhile (· ≠ '=') with
    | [] => long name none
    | _ :: value => long name (some value)
  | ['-'] => root ['-']
  | '-' :: cs => short cs
  | cs => root cs

/-- Reads the flags of one argument. An option among them takes what follows it as its value, and
is left without one at the end. -/
def readShort : Options → List Char → Except Stop (Options × Option ValueOption)
  | options, [] => .ok (options, none)
  | options, c :: cs =>
    match shortSwitch? c with
    | none => .error .refused
    | some (.flag flag) =>
      match setFlag options flag with
      | .error stop => .error stop
      | .ok options => readShort options cs
    | some (.option option) =>
      match cs with
      | [] => .ok (options, some option)
      | '=' :: value => (setOption options option value).map (·, none)
      | value => (setOption options option value).map (·, none)

/-- Reads one argument. The option of the answer lacks its value. -/
def readArgument (options : Options) : Argument → Except Stop (Options × Option ValueOption)
  | .dashes => .ok (options, none)
  | .root text => (addRoot options text).map (·, none)
  | .short flags => readShort options flags
  | .long name value =>
    match longSwitch? name, value with
    | none, _ => .error .refused
    | some (.flag flag), none => (setFlag options flag).map (·, none)
    | some (.flag _), some _ => .error .refused
    | some (.option option), none => .ok (options, some option)
    | some (.option option), some value => (setOption options option value).map (·, none)

/-- Reads arguments; `waiting` is an option that takes the next one as its value, if that one has
the form of a root. -/
def readArguments (options : Options) (waiting : Option ValueOption) :
    List String → Except Stop Options
  | [] => if waiting.isSome then .error .refused else .ok options
  | arg :: args =>
    let argument := Argument.ofText arg.toList
    match waiting with
    | some option =>
      match argument with
      | .root value =>
        match setOption options option value with
        | .error stop => .error stop
        | .ok options => readArguments options none args
      | _ => .error .refused
    | none =>
      if argument = .dashes then
        args.foldlM (fun options root => addRoot options root.toList) options
      else
        match readArgument options argument with
        | .error stop => .error stop
        | .ok (options, waiting) => readArguments options waiting args

def parse (args : List String) : Except Stop Options := readArguments .none none args

/-! ### Running -/

/-- What a run shows and returns. The usage, if it is shown, follows what is printed. -/
structure Report where
  exitCode : Nat
  printed : String
  usage : Bool
  message : Option String
deriving DecidableEq, Inhabited

def versionText : String := "trace_to_csv 0.1.0\n"

/-- The exit code of a refused command line. -/
def refusedCode : Nat := 2

def Report.ofStop : Stop → Report
  | .help => ⟨0, "", true, none⟩
  | .version => ⟨0, versionText, false, none⟩
  | .refused => ⟨refusedCode, "", false, none⟩

/-- Reports a fault; the usage is a reminder when a file could not be opened or made. -/
def Report.ofFault (fault : Fault) (printed message : String) : Report where
  exitCode := fault.exitCode
  printed
  usage := fault.kind = .input ∨ fault.kind = .output
  message := some ("ERROR: " ++ message)

variable {m : Type → Type} [Monad m]

/-- The table of event names that the options ask for. -/
def chooseEventNames (files : FileAccess m) (reports : String → EventNames.JsonReport)
    (options : Options) : m (Except Fault EventNames) :=
  match options.eventNames with
  | none => pure (.ok .standard)
  | some path => loadEventNames files reports path

def pathsOf (options : Options) (root : String) : TracePaths :=
  match options.output with
  | none => .ofRoot root
  | some csv => (TracePaths.ofRoot root).withOutput csv

def configOf (options : Options) (eventNames : EventNames) : Config where
  batchCapacity := options.batchCapacity.getD Decoder.standardCapacity
  maxObjects := Header.objectLimit
  eventNames
  dump := !options.quiet

def Report.ofOutcome (paths : TracePaths) (outcome : FileOutcome) : Report :=
  match outcome.result with
  | .ok _ => ⟨0, outcome.printed, false, none⟩
  | .error fault =>
    .ofFault fault outcome.printed
      ("Failed to convert " ++ paths.trace ++ ": " ++ fault.fullMessage)

def convertRoot (files : FileAccess m) (reports : String → EventNames.JsonReport)
    (options : Options) (root : String) : m Report := do
  match ← chooseEventNames files reports options with
  | .error fault => return .ofFault fault "" fault.fullMessage
  | .ok eventNames =>
    let paths := pathsOf options root
    return .ofOutcome paths (← convertFiles files paths (configOf options eventNames))

/-- Without exactly one root only the usage is shown. -/
def run (files : FileAccess m) (reports : String → EventNames.JsonReport) (args : List String) :
    m Report :=
  match parse args with
  | .error stop => pure (.ofStop stop)
  | .ok options =>
    match options.roots with
    | [root] => convertRoot files reports options root
    | _ => pure ⟨0, "", true, none⟩

end ReactorTrace.CommandLine
