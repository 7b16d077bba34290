import ReactorTrace.EventNames
import ReactorTrace.Header
import ReactorTrace.Output
import ReactorTrace.Record.Layout

/-! The body of a trace: batches of records, each led by the number of its records. The body ends
where the file ends just before a batch. A batch is read whole before any of its rows is written,
and it counts towards the totals once all its rows are written. Decoding may go on after a fault,
from where the stream stands. -/

namespace ReactorTrace

structure Totals where
  batches : Nat
  records : Nat
deriving DecidableEq, Inhabited

def Totals.addBatch (totals : Totals) (count : Nat) : Totals :=
  ⟨totals.batches + 1, totals.records + count⟩

inductive BatchStatus
  | decoded (records : Nat)
  | endOfTrace
deriving DecidableEq, Inhabited

/-- What decides how a body is decoded. `capacity` is the length of the longest accepted batch. -/
structure Decoder where
  header : Header
  eventNames : EventNames
  capacity : Nat

/-- How far decoding has come: the stream, the totals so far, the state of the output, and the buffer
that the records of each batch are read into. -/
structure Decoding (σ : Type) where
  source : Source
  totals : Totals
  output : σ
  buffer : List UInt8

/-- Decoding before its first batch. -/
def Decoding.start {σ : Type} (source : Source) (output : σ) : Decoding σ :=
  ⟨source, ⟨0, 0⟩, output, []⟩

namespace Decoder

/-- The longest accepted batch unless another capacity is given. -/
def standardCapacity : Nat := 2048

def checkLength (capacity : Nat) (length : Int32) : Except Fault Nat :=
  if length < 0 then .error (.negativeBatchLength length)
  else if capacity < length.toInt.toNat then .error (.longBatch length capacity)
  else .ok length.toInt.toNat

/-- The number of records of the next batch, or `none` at the end of the trace. -/
def readLength (capacity : Nat) : Reading (Option Nat) := do
  let bs ← Reading.bytes 4
  if bs.length = 0 then return none
  else if bs.length < 4 then Reading.fail (.shortBatchLength bs.length)
  else
    match checkLength capacity (LittleEndian.decodeInt32 bs) with
    | .ok length => return some length
    | .error fault => Reading.fail fault

/-- The records of a block of bytes. Bytes short of a whole record are left out. -/
def records (bs : List UInt8) : List RawRecord :=
  match _h : bs.drop (RawRecord.size - 1) with
  | [] => []
  | _ :: rest => RawRecord.ofBlock (bs.take RawRecord.size) :: records rest
termination_by bs.length
decreasing_by
  have hlen := congrArg List.length _h
  simp only [List.length_drop, List.length_cons] at hlen
  omega

variable {σ : Type}

def checkBlock (count : Nat) : Except IoFault Nat → Except Fault Unit
  | .error fault => .error (.io fault)
  | .ok got =>
    if got = count * RawRecord.size then .ok ()
    else .error (.shortBatch count (count * RawRecord.size) got)

/-- Empties the buffer and reads the bytes of `count` records into it. -/
def fillBuffer (count : Nat) (st : Decoding σ) : Except Fault Unit × Decoding σ :=
  let cleared : Decoding σ := { st with buffer := [] }
  let got := cleared.source.append (count * RawRecord.size) cleared.buffer
  (checkBlock count got.1.1, { cleared with source := got.2, buffer := got.1.2 })

/-- Reads the next batch into the buffer and gives the number of its records, or `none` at the end of
the trace. -/
def load (capacity : Nat) (st : Decoding σ) : Except Fault (Option Nat) × Decoding σ :=
  match readLength capacity st.source with
  | (.error fault, source) => (.error fault, { st with source })
  | (.ok none, source) => (.ok none, { st with source })
  | (.ok (some count), source) =>
    match fillBuffer count { st with source } with
    | (.error fault, st) => (.error fault, st)
    | (.ok (), st) => (.ok (some count), st)

/-- The row of the record at `index` in its batch. -/
def row (d : Decoder) (index : Nat) (raw : RawRecord) : Except Fault Row :=
  let record := Record.ofRaw raw
  match d.eventNames.get? record.eventType with
  | none => .error (.unknownEvent index record.eventType d.eventNames.size)
  | some event =>
    .ok (Row.ofRecord record event (d.header.symbols.describe record.object) d.header.startTime)

/-- Writes rows until one cannot be made or cannot be written. -/
def writeRows (d : Decoder) (out : Output σ) :
    (index : Nat) → List RawRecord → σ → Except Fault Unit × σ
  | _, [], s => (.ok (), s)
  | index, raw :: raws, s =>
    match d.row index raw with
    | .error fault => (.error fault, s)
    | .ok r =>
      match out.row r s with
      | (.error fault, s') => (.error fault, s')
      | (.ok (), s') => d.writeRows out (index + 1) raws s'

/-- Decodes one batch. -/
def batch (d : Decoder) (out : Output σ) (st : Decoding σ) :
    Except Fault BatchStatus × Decoding σ :=
  match load d.capacity st with
  | (.error fault, st) => (.error fault, st)
  | (.ok none, st) => (.ok .endOfTrace, st)
  | (.ok (some count), st) =>
    match d.writeRows out 0 (records st.buffer) st.output with
    | (.error fault, output) => (.error fault, { st with output })
    | (.ok (), output) =>
      (.ok (.decoded count), { st with output, totals := st.totals.addBatch count })

/-! ### Progress -/

theorem length_rest_readLength {capacity length : Nat} {s s' : Source}
    (h : readLength capacity s = (.ok (some length), s')) :
    s'.rest.length + 4 = s.rest.length := by
  obtain ⟨bs, s₁, hb, h⟩ := Reading.bind_eq_ok h
  obtain ⟨rfl, hr, -⟩ := Reading.bytes_eq_ok hb
  split at h
  · simp [Reading.pure_apply] at h
  · split at h
    · simp [Reading.fail_apply] at h
    · rename_i hlt
      have hs : s' = s₁ := by
        cases hc : checkLength capacity (LittleEndian.decodeInt32 (s.rest.take 4)) with
        | ok n =>
          simp only [hc, Reading.pure_apply, Prod.mk.injEq] at h
          exact h.2.symm
        | error fault => simp [hc, Reading.fail_apply] at h
      rw [hs, hr]
      simp only [List.length_take, List.length_drop] at hlt ⊢
      omega

@[simp] theorem rest_fillBuffer (count : Nat) (st : Decoding σ) :
    (fillBuffer count st).2.source.rest = st.source.rest.drop (count * RawRecord.size) := by
  simp only [fillBuffer, Source.append_snd, Source.rest_collect]

theorem length_rest_load {capacity count : Nat} {st st' : Decoding σ}
    (h : load capacity st = (.ok (some count), st')) :
    st'.source.rest.length < st.source.rest.length := by
  unfold load at h
  split at h
  · simp at h
  · simp at h
  · rename_i source hl
    have hlt := length_rest_readLength hl
    have hrest := rest_fillBuffer count { st with source }
    split at h
    · simp at h
    · rename_i hf
      simp only [Prod.mk.injEq, Except.ok.injEq, Option.some.injEq] at h
      obtain ⟨rfl, rfl⟩ := h
      rw [hf] at hrest
      dsimp only at hrest
      rw [hrest, List.length_drop]
      omega

/-- A decoded batch takes bytes from the stream, even when it has no records. -/
theorem length_rest_batch {d : Decoder} {out : Output σ} {st st' : Decoding σ} {count : Nat}
    (h : d.batch out st = (.ok (.decoded count), st')) :
    st'.source.rest.length < st.source.rest.length := by
  unfold batch at h
  split at h
  · simp at h
  · simp at h
  · rename_i hl
    have hlt := length_rest_load hl
    split at h
    · simp at h
    · simp only [Prod.mk.injEq] at h
      rw [← h.2]
      exact hlt

/-- Decodes batches to the end of the trace, and gives the totals since decoding began. -/
def all (d : Decoder) (out : Output σ) (st : Decoding σ) : Except Fault Totals × Decoding σ :=
  match _h : d.batch out st with
  | (.error fault, st') => (.error fault, st')
  | (.ok .endOfTrace, st') => (.ok st'.totals, st')
  | (.ok (.decoded _), st') => d.all out st'
termination_by st.source.rest.length
decreasing_by exact length_rest_batch _h

theorem all_eq (d : Decoder) (out : Output σ) (st : Decoding σ) :
    d.all out st = match d.batch out st with
      | (.error fault, st') => (.error fault, st')
      | (.ok .endOfTrace, st') => (.ok st'.totals, st')
      | (.ok (.decoded _), st') => d.all out st' := by
  rw [all]
  split <;> simp_all

end Decoder

end ReactorTrace
