import ReactorTrace.Encoder

/-! Steps of the encoder as they are carried out: piece by piece, onto the end of what is written
already. Nothing written is taken back, so that a step which is refused leaves behind whatever it wrote
before. -/

namespace ReactorTrace.Encoder

/-- Writing to memory, which never fails by itself. -/
abbrev Writer : Type → Type := ExceptT Refusal (StateM (List UInt8))

def write (bs : List UInt8) : Writer Unit := modify (· ++ bs)

def checkCount (count : Nat) (refusal : Refusal) : Writer Unit :=
  if count ≤ maxCount then pure () else throw refusal

def writeEntry (entry : SymbolEntry) : Writer Unit := do
  write entry.object.toBytes
  write (Text.Utf8.encode entry.description)
  write [0]

def writeHeader (startTime : Int64) (entries : List SymbolEntry) : Writer Unit := do
  checkCount entries.length .tooManyObjects
  write (LittleEndian.encodeInt64 startTime)
  write (LittleEndian.encode 4 entries.length)
  entries.forM writeEntry

def writeRawBatch (raws : List RawRecord) : Writer Unit := do
  checkCount raws.length .batchTooLong
  write (LittleEndian.encode 4 raws.length)
  raws.forM fun raw => write raw.toBytes

/-- All records are brought into their stored form before the first is written. -/
def writeBatch (records : List Record) : Writer Unit :=
  match records.mapM Record.toRaw with
  | .ok raws => writeRawBatch raws
  | .error .reactionTooLarge => throw .reactionTooLarge

def Step.write : Step → Writer Unit
  | header startTime entries => writeHeader startTime entries
  | batch records => writeBatch records
  | rawBatch raws => writeRawBatch raws

/-- What became of a step, and all that is written after it. -/
def Step.perform (step : Step) (written : List UInt8) : Except Refusal Unit × List UInt8 :=
  step.write.run.run written

/-- Steps one after the other. A refused step does not stop those behind it. -/
def run : List Step → List UInt8 → List (Except Refusal Unit) × List UInt8
  | [], written => ([], written)
  | step :: steps, written =>
    let (result, written) := step.perform written
    let (results, written) := run steps written
    (result :: results, written)

end ReactorTrace.Encoder
