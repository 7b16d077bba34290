import ReactorTrace.Batch

/-! Conversion of a whole trace. The column names are written once the header is read, then the
rows of all batches in order, and the output is flushed last. After a fault in the body the rows
written so far are flushed too, and that fault is reported whatever the flush does. -/

namespace ReactorTrace

/-- With `dump`, the start time and the object table are printed. -/
structure Config where
  batchCapacity : Nat
  maxObjects : Nat
  eventNames : EventNames
  dump : Bool

def Config.standard : Config where
  batchCapacity := Decoder.standardCapacity
  maxObjects := Header.objectLimit
  eventNames := .standard
  dump := true

structure Summary where
  startTime : Int64
  objects : Nat
  batches : Nat
  records : Nat
deriving DecidableEq, Inhabited

/-- The end of a conversion: its result, the text printed, the stream and the output's state. -/
structure Outcome (σ : Type) where
  result : Except Fault Summary
  printed : String
  source : Source
  output : σ

variable {σ : Type}

/-- Converts the body after the column names are written. -/
def convertBody (d : Decoder) (out : Output σ) (source : Source) (s : σ) :
    Except Fault Summary × Decoding σ :=
  match d.all out (.start source s) with
  | (.error fault, st) => (.error fault, { st with output := (out.flush st.output).2 })
  | (.ok totals, st) =>
    let flushed := out.flush st.output
    (flushed.1.map fun _ =>
        ⟨d.header.startTime, d.header.symbols.size, totals.batches, totals.records⟩,
      { st with output := flushed.2 })

def convert (config : Config) (out : Output σ) (source : Source) (s : σ) : Outcome σ :=
  match Header.read config.maxObjects source with
  | (.error fault, source) => ⟨.error fault, "", source, s⟩
  | (.ok header, source) =>
    let printed := if config.dump then header.dump else ""
    match out.title s with
    | (.error fault, s) => ⟨.error fault, printed, source, s⟩
    | (.ok (), s) =>
      let d : Decoder := ⟨header, config.eventNames, config.batchCapacity⟩
      let body := convertBody d out source s
      ⟨body.1, printed, body.2.source, body.2.output⟩

end ReactorTrace
