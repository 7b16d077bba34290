import ReactorTrace.Header
import ReactorTrace.Record.Layout

/-! Traces written out: the header, then batches, laid out as they are read. A step that is
refused adds no bytes. -/

namespace ReactorTrace.Encoder

inductive Refusal
  | tooManyObjects
  | reactionTooLarge
  | batchTooLong
deriving DecidableEq, Inhabited

def Refusal.message : Refusal → String
  | tooManyObjects => "too many objects"
  | reactionTooLarge => "reaction index too large"
  | batchTooLong => "batch too long"

/-- The largest count that the length fields hold. -/
def maxCount : Nat := 2147483647

def encodeEntry (entry : SymbolEntry) : List UInt8 :=
  entry.object.toBytes ++ Text.Utf8.encode entry.description ++ [0]

def encodeHeader (startTime : Int64) (entries : List SymbolEntry) :
    Except Refusal (List UInt8) :=
  if entries.length ≤ maxCount then
    .ok (LittleEndian.encodeInt64 startTime ++ LittleEndian.encode 4 entries.length ++
      entries.flatMap encodeEntry)
  else .error .tooManyObjects

def encodeRawBatch (raws : List RawRecord) : Except Refusal (List UInt8) :=
  if raws.length ≤ maxCount then
    .ok (LittleEndian.encode 4 raws.length ++ raws.flatMap RawRecord.toBytes)
  else .error .batchTooLong

/-- No record of the batch is written unless all can be. -/
def encodeBatch (records : List Record) : Except Refusal (List UInt8) :=
  match records.mapM Record.toRaw with
  | .ok raws => encodeRawBatch raws
  | .error .reactionTooLarge => .error .reactionTooLarge

inductive Step
  | header (startTime : Int64) (entries : List SymbolEntry)
  | batch (records : List Record)
  | rawBatch (raws : List RawRecord)

def Step.encode : Step → Except Refusal (List UInt8)
  | header startTime entries => encodeHeader startTime entries
  | batch records => encodeBatch records
  | rawBatch raws => encodeRawBatch raws

/-- The bytes that a step adds to the trace. -/
def Step.bytes (step : Step) : List UInt8 :=
  match step.encode with
  | .ok bs => bs
  | .error _ => []

/-- The trace written by a run of steps. -/
def trace (steps : List Step) : List UInt8 := steps.flatMap Step.bytes

end ReactorTrace.Encoder
