/-! What can go wrong with a trace. Every fault belongs to one kind, and the kind decides the exit
code of the command line; the wording of all faults is in `message`. -/

namespace ReactorTrace

/-- A failed operation on a file or a stream. -/
inductive IoFault
  | notFound
  | notDirectory
  | isDirectory
  | nameTooLong
  | nulInName
  | notUtf8
  | other (message : String)
deriving DecidableEq, Inhabited

def IoFault.message : IoFault → String
  | notFound => "No such file or directory (os error 2)"
  | notDirectory => "Not a directory (os error 20)"
  | isDirectory => "Is a directory (os error 21)"
  | nameTooLong => "File name too long (os error 36)"
  | nulInName => "file name contained an unexpected NUL byte"
  | notUtf8 => "stream did not contain valid UTF-8"
  | other message => message

/-- The parts of a trace header, in the order in which they are read; the last two repeat. -/
inductive HeaderField
  | startTime
  | objectCount
  | objectIdentity
  | objectDescription
deriving DecidableEq, Inhabited

namespace HeaderField

def name : HeaderField → String
  | startTime => "start time"
  | objectCount => "object count"
  | objectIdentity => "object identity"
  | objectDescription => "object description"

/-- The bytes that one read of the field asks for. Descriptions are read byte by byte. -/
def width : HeaderField → Nat
  | startTime => 8
  | objectCount => 4
  | objectIdentity => 8
  | objectDescription => 1

end HeaderField

inductive Fault
  | noTrace (path : String) (cause : IoFault)
  | noOutput (path : String) (cause : IoFault)
  | shortHeader (field : HeaderField) (expected got : Nat)
  | objectCount (count : Int32) (limit : Nat)
  | shortBatchLength (got : Nat)
  | longBatch (length : Int32) (capacity : Nat)
  | negativeBatchLength (length : Int32)
  | shortBatch (records expected got : Nat)
  | unknownEvent (index : Nat) (eventType : Int32) (known : Nat)
  | eventNames (path reason : String)
  | io (cause : IoFault)
deriving DecidableEq, Inhabited

inductive FaultKind
  | input
  | output
  | malformed
  | corrupt
  | io
  | config
deriving DecidableEq, Inhabited

namespace FaultKind

def all : List FaultKind := [input, output, malformed, corrupt, io, config]

/-- Never zero, and never two, which stands for a refused command line. -/
def exitCode : FaultKind → Nat
  | input => 3
  | output => 4
  | malformed => 6
  | corrupt => 5
  | io => 1
  | config => 1

end FaultKind

namespace Fault

def kind : Fault → FaultKind
  | noTrace .. => .input
  | noOutput .. => .output
  | shortHeader .. | objectCount .. | shortBatchLength .. | shortBatch .. => .malformed
  | longBatch .. | negativeBatchLength .. | unknownEvent .. => .corrupt
  | eventNames .. => .config
  | io .. => .io

def exitCode (fault : Fault) : Nat := fault.kind.exitCode

def message : Fault → String
  | noTrace path _ => "No trace file named " ++ path
  | noOutput path _ => "Could not create output file named " ++ path
  | shortHeader field expected got =>
    "Failed to read " ++ field.name ++ " from trace header: expected " ++ expected.repr ++
      " bytes, got " ++ got.repr
  | objectCount count limit =>
    "Trace header declares " ++ count.toInt.repr ++ " objects, accepted range is 0..=" ++ limit.repr
  | shortBatchLength got => "Failed to read trace length: expected 4 bytes, got " ++ got.repr
  | longBatch length capacity =>
    "Trace length " ++ length.toInt.repr ++ " exceeds capacity " ++ capacity.repr ++
      ". File is garbled."
  | negativeBatchLength length =>
    "Trace length " ++ length.toInt.repr ++ " is negative. File is garbled."
  | shortBatch records expected got =>
    "Trace of length " ++ records.repr ++ " is truncated: expected " ++ expected.repr ++
      " bytes, got " ++ got.repr
  | unknownEvent index eventType known =>
    "Record " ++ index.repr ++ " has event type " ++ eventType.toInt.repr ++ ", only " ++
      known.repr ++ " event types are known"
  | eventNames path reason => "Invalid event name table " ++ path ++ ": " ++ reason
  | io cause => cause.message

/-- The fault of the operating system behind a fault that does not itself show it. -/
def cause? : Fault → Option IoFault
  | noTrace _ cause | noOutput _ cause => some cause
  | _ => none

/-- The message together with its cause. -/
def fullMessage (fault : Fault) : String :=
  match fault.cause? with
  | some cause => fault.message ++ ": " ++ cause.message
  | none => fault.message

end Fault

end ReactorTrace
