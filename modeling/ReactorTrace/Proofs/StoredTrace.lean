import ReactorTrace.Proofs.Records
import ReactorTrace.Proofs.Rows
import ReactorTrace.Proofs.Standing
import ReactorTrace.Proofs.StoredHeader

/-! The stored form of a batch and of a whole trace. Decoding takes exactly the stored batches within
its capacity (`front_bytes`, `exists_batch_of_front`), reports what is missing of one that is cut off
(`front_cut`), and passes over any number of them one by one (`Standing.all_behind`). Records are any
48 bytes: their padding is not read. -/

namespace ReactorTrace

/-- A record as it is stored. -/
@[ext] structure StoredRecord where
  bytes : List UInt8
  length_eq : bytes.length = RawRecord.size

namespace StoredRecord

def raw (r : StoredRecord) : RawRecord := RawRecord.ofBlock r.bytes

/-- The record that is read from the bytes. Eight of them are padding. -/
def record (r : StoredRecord) : Record :=
  let reaction := LittleEndian.decodeInt32 ((r.bytes.drop 16).take 4)
  { eventType := LittleEndian.decodeInt32 (r.bytes.take 4)
    object := ⟨LittleEndian.decodeUInt64 ((r.bytes.drop 8).take 8)⟩
    reaction := if reaction.toInt < 0 then none else some (UInt32.ofNat reaction.toInt.toNat)
    worker := LittleEndian.decodeInt32 ((r.bytes.drop 20).take 4)
    logicalTime := LittleEndian.decodeInt64 ((r.bytes.drop 24).take 8)
    microstep := LittleEndian.decodeInt32 ((r.bytes.drop 32).take 4)
    physicalTime := LittleEndian.decodeInt64 ((r.bytes.drop 40).take 8) }

theorem ofRaw_raw (r : StoredRecord) : Record.ofRaw r.raw = r.record := by
  have hreaction : (Record.ofRaw r.raw).reaction = r.record.reaction := Record.reaction_ofRaw r.raw
  exact congrArg (fun reaction => { r.record with reaction }) hreaction

/-- The bytes that a raw record is written as. -/
def ofRaw (raw : RawRecord) : StoredRecord := ⟨raw.toBytes, raw.length_toBytes⟩

@[simp] theorem raw_ofRaw (raw : RawRecord) : (ofRaw raw).raw = raw := raw.ofBlock_toBytes

@[simp] theorem length_flatMap_bytes (records : List StoredRecord) :
    (records.flatMap bytes).length = records.length * RawRecord.size := by
  induction records with
  | nil => rfl
  | cons r records ih =>
    rw [List.flatMap_cons, List.length_append, ih, r.length_eq, List.length_cons, Nat.succ_mul,
      Nat.add_comm]

theorem exists_of_length {count : Nat} {bs : List UInt8} (h : bs.length = count * RawRecord.size) :
    ∃ records : List StoredRecord, records.length = count ∧ bs = records.flatMap bytes := by
  induction count generalizing bs with
  | zero =>
    obtain rfl : bs = [] := List.length_eq_zero_iff.1 (by rw [h, Nat.zero_mul])
    exact ⟨[], rfl, rfl⟩
  | succ count ih =>
    rw [Nat.succ_mul] at h
    have hfirst : (bs.take RawRecord.size).length = RawRecord.size :=
      List.length_take_of_le (by omega)
    have hmore : (bs.drop RawRecord.size).length = count * RawRecord.size := by
      rw [List.length_drop]
      omega
    obtain ⟨records, rfl, hbs⟩ := ih hmore
    refine ⟨⟨bs.take RawRecord.size, hfirst⟩ :: records, rfl, ?_⟩
    rw [List.flatMap_cons, ← hbs, List.take_append_drop]

theorem flatMap_bytes_inj {rs rs' : List StoredRecord} (h : rs.flatMap bytes = rs'.flatMap bytes)
    (hlen : rs.length = rs'.length) : rs = rs' := by
  induction rs generalizing rs' with
  | nil => exact (List.length_eq_zero_iff.1 hlen.symm).symm
  | cons r rs ih =>
    obtain ⟨r', rs', rfl⟩ := List.exists_cons_of_length_eq_add_one hlen.symm
    obtain ⟨hr, hrs⟩ := List.append_inj h (by rw [r.length_eq, r'.length_eq])
    rw [StoredRecord.ext hr, ih hrs (by simpa using hlen)]

end StoredRecord

/-- A batch as it is stored. -/
@[ext] structure StoredBatch where
  records : List StoredRecord
  count_le : records.length ≤ Encoder.maxCount

namespace StoredBatch

def block (b : StoredBatch) : List UInt8 := b.records.flatMap StoredRecord.bytes

def bytes (b : StoredBatch) : List UInt8 := LittleEndian.encode 4 b.records.length ++ b.block

def raws (b : StoredBatch) : List RawRecord := b.records.map StoredRecord.raw

@[simp] theorem length_block (b : StoredBatch) :
    b.block.length = b.records.length * RawRecord.size :=
  StoredRecord.length_flatMap_bytes b.records

theorem length_bytes (b : StoredBatch) :
    b.bytes.length = 4 + b.records.length * RawRecord.size := by
  rw [bytes, List.length_append, LittleEndian.length_encode, length_block]

@[simp] theorem length_raws (b : StoredBatch) : b.raws.length = b.records.length :=
  List.length_map ..

theorem records_block (b : StoredBatch) : Decoder.records b.block = b.raws := by
  unfold block raws
  induction b.records with
  | nil => exact Decoder.records_of_length_lt (by decide)
  | cons r records ih =>
    rw [List.flatMap_cons, Decoder.records_append r.length_eq, ih, List.map_cons]
    rfl

/-- A byte string begins with at most one stored batch. -/
theorem bytes_inj {b b' : StoredBatch} {rest rest' : List UInt8}
    (h : b.bytes ++ rest = b'.bytes ++ rest') : b = b' ∧ rest = rest' := by
  simp only [bytes, List.append_assoc] at h
  obtain ⟨hcount, h⟩ := List.append_inj h (by simp)
  have hlt (b : StoredBatch) : b.records.length < LittleEndian.modulus 4 :=
    Nat.lt_of_le_of_lt b.count_le (by decide)
  have hlen := LittleEndian.encode_inj (hlt b) (hlt b') hcount
  obtain ⟨hblock, hrest⟩ := List.append_inj h (by simp [hlen])
  exact ⟨StoredBatch.ext (StoredRecord.flatMap_bytes_inj hblock hlen), hrest⟩

theorem bytes_append_ne_nil (b : StoredBatch) (rest : List UInt8) : b.bytes ++ rest ≠ [] := by
  intro h
  have hlen := congrArg List.length h
  rw [List.length_append, length_bytes, List.length_nil] at hlen
  omega

theorem flatMap_bytes_inj {bs bs' : List StoredBatch}
    (h : bs.flatMap bytes = bs'.flatMap bytes) : bs = bs' := by
  induction bs generalizing bs' with
  | nil =>
    cases bs' with
    | nil => rfl
    | cons b' bs' => exact absurd h.symm (bytes_append_ne_nil b' _)
  | cons b bs ih =>
    cases bs' with
    | nil => exact absurd h (bytes_append_ne_nil b _)
    | cons b' bs' =>
      obtain ⟨rfl, hrest⟩ := bytes_inj h
      rw [ih hrest]

end StoredBatch

/-- A trace as it is stored: a header, and batches to the end of the file. -/
@[ext] structure StoredTrace where
  header : StoredHeader
  batches : List StoredBatch

namespace StoredTrace

def bytes (t : StoredTrace) : List UInt8 := t.header.bytes ++ t.batches.flatMap StoredBatch.bytes

/-- No byte string is stored from two traces. -/
theorem bytes_inj {t t' : StoredTrace} (h : t.bytes = t'.bytes) : t = t' := by
  obtain ⟨hheader, hbatches⟩ := StoredHeader.bytes_inj h
  exact StoredTrace.ext hheader (StoredBatch.flatMap_bytes_inj hbatches)

end StoredTrace

namespace Decoder

/-! ### Stored batches are decoded -/

theorem checkLength_encode_eq (capacity : Nat) {n : Nat} (hmax : n ≤ Encoder.maxCount) :
    let length := LittleEndian.decodeInt32 (LittleEndian.encode 4 n)
    checkLength capacity length = if capacity < n then .error (.longBatch length capacity) else .ok n := by
  intro length
  have hint : length.toInt = n := LittleEndian.toInt_decodeInt32_encode hmax
  have hnonneg : ¬ length < 0 := Int32.not_lt.2 (LittleEndian.decodeInt32_encode_nonneg hmax)
  rw [checkLength, if_neg hnonneg, hint, Int.toNat_natCast]

theorem checkLength_encode {capacity n : Nat} (hmax : n ≤ Encoder.maxCount) (hcap : n ≤ capacity) :
    checkLength capacity (LittleEndian.decodeInt32 (LittleEndian.encode 4 n)) = .ok n := by
  rw [checkLength_encode_eq capacity hmax, if_neg (Nat.not_lt.2 hcap)]

theorem front_bytes {capacity : Nat} (b : StoredBatch) (hcap : b.records.length ≤ capacity)
    (ending : Ending) (rest : List UInt8) :
    front capacity ending (b.bytes ++ rest) = (.ok (some b.raws), b.bytes.length) := by
  have hlen : (b.bytes ++ rest).length = 4 + b.records.length * RawRecord.size + rest.length := by
    rw [List.length_append, b.length_bytes]
  have happend : b.bytes ++ rest =
      LittleEndian.encode 4 b.records.length ++ (b.block ++ rest) := List.append_assoc ..
  unfold front
  rw [if_neg (by omega), happend, List.take_left' (LittleEndian.length_encode ..),
    checkLength_encode b.count_le hcap, ← happend]
  dsimp only
  rw [if_neg (by omega), happend, List.drop_left' (LittleEndian.length_encode ..),
    List.take_left' b.length_block, b.records_block, b.length_bytes]

/-- A batch that is too long is not looked into. -/
theorem front_long {capacity : Nat} {b : StoredBatch} (hlong : capacity < b.records.length)
    (ending : Ending) (rest : List UInt8) :
    front capacity ending (b.bytes ++ rest) =
      (.error (.longBatch (LittleEndian.decodeInt32 (LittleEndian.encode 4 b.records.length)) capacity),
        4) := by
  have hfour : ¬ (b.bytes ++ rest).length < 4 := by
    rw [List.length_append, b.length_bytes]
    omega
  unfold front
  rw [if_neg hfour, StoredBatch.bytes, List.append_assoc, List.take_left' (LittleEndian.length_encode ..),
    checkLength_encode_eq capacity b.count_le, if_pos hlong]

/-- The stream stops within a stored batch. -/
theorem front_cut {capacity : Nat} {b : StoredBatch} (hcap : b.records.length ≤ capacity)
    (ending : Ending) {r : List UInt8} (hr : r <+: b.bytes) (hlt : r.length < b.bytes.length) :
    front capacity ending r =
      (if r = [] ∧ ending = .endOfFile then .ok none
        else .error (ending.cut (if r.length < 4 then .shortBatchLength r.length
          else .shortBatch b.records.length (b.records.length * RawRecord.size) (r.length - 4))),
        r.length) := by
  unfold front
  by_cases hshort : r.length < 4
  · rw [if_pos hshort, if_pos hshort]
  · have hnil : ¬ (r = [] ∧ ending = .endOfFile) := by
      rintro ⟨rfl, -⟩
      exact hshort (by decide)
    have hcount : r.take 4 = LittleEndian.encode 4 b.records.length := by
      have hfirst : b.bytes.take 4 = LittleEndian.encode 4 b.records.length :=
        List.take_left' (LittleEndian.length_encode ..)
      obtain ⟨tail, htail⟩ := hr
      rw [← hfirst, ← htail, List.take_append_of_le_length (by omega)]
    rw [b.length_bytes] at hlt
    rw [if_neg hshort, hcount, checkLength_encode b.count_le hcap, if_neg hnil, if_neg hshort]
    dsimp only
    rw [if_pos hlt]

/-! ### Only stored batches are decoded -/

theorem exists_batch_of_front {capacity : Nat} {ending : Ending} {r : List UInt8}
    {raws : List RawRecord} (h : (front capacity ending r).1 = .ok (some raws)) :
    ∃ b : StoredBatch, b.records.length ≤ capacity ∧ b.raws = raws ∧
      r = b.bytes ++ r.drop (front capacity ending r).2 := by
  unfold front at h ⊢
  by_cases hshort : r.length < 4
  · rw [if_pos hshort] at h
    split at h <;> simp at h
  · have hfour : (r.take 4).length = 4 := List.length_take_of_le (by omega)
    rw [if_neg hshort] at h ⊢
    rcases checkLength_cases capacity hfour with ⟨n, -, -, hc⟩ | ⟨n, -, -, hc⟩ |
      ⟨n, hn, hmax, hcap, hc⟩
    · simp [hc] at h
    · simp [hc] at h
    · simp only [hc] at h ⊢
      by_cases hcut : r.length < 4 + n * RawRecord.size
      · simp [if_pos hcut] at h
      · simp only [if_neg hcut, Except.ok.injEq, Option.some.injEq] at h ⊢
        have hblock : ((r.drop 4).take (n * RawRecord.size)).length = n * RawRecord.size := by
          apply List.length_take_of_le
          rw [List.length_drop]
          omega
        obtain ⟨records, rfl, hrecords⟩ := StoredRecord.exists_of_length hblock
        refine ⟨⟨records, hmax⟩, hcap, ?_, ?_⟩
        · rw [← h, hrecords]
          exact (StoredBatch.records_block ⟨records, hmax⟩).symm
        · rw [StoredBatch.bytes, StoredBatch.block, ← hn, ← hrecords, List.append_assoc,
            ← List.drop_drop, List.take_append_drop, List.take_append_drop]

theorem front_eq_none {capacity : Nat} {ending : Ending} {r : List UInt8}
    (h : (front capacity ending r).1 = .ok none) : r = [] ∧ ending = .endOfFile := by
  unfold front at h
  split at h
  · split at h
    · assumption
    · simp at h
  · split at h
    · simp at h
    · split at h <;> simp at h

/-- The batches that are decoded without a fault of theirs. -/
structure Accepts (d : Decoder) (b : StoredBatch) : Prop where
  count_le : b.records.length ≤ d.capacity
  known : ∀ raw ∈ b.raws, d.eventNames.Knows raw.eventType

end Decoder

namespace Standing

open Decoder

variable {σ : Type}

/-- Behind stored batches, with all their rows written. -/
def behind (d : Decoder) (out : Output σ) (batches : List StoredBatch) (rest : List UInt8)
    (v : Standing σ) : Standing σ where
  rest
  ending := v.ending
  totals := ⟨v.totals.batches + batches.length,
    v.totals.records + (batches.flatMap StoredBatch.records).length⟩
  output := out.calls (((batches.flatMap StoredBatch.raws).map d.rowOf).map .row) v.output

theorem batch_of_accepts {d : Decoder} {out : Output σ} (hout : out.NeverFails) {b : StoredBatch}
    (hb : d.Accepts b) {v : Standing σ} {rest : List UInt8} (hrest : v.rest = b.bytes ++ rest) :
    v.batch d out = (.ok (.decoded b.records.length), v.behind d out [b] rest) := by
  have hskip : v.rest.drop b.bytes.length = rest := by rw [hrest, List.drop_left]
  have hunknown : d.unknown? b.raws = none := unknown?_eq_none_iff.2 hb.known
  rw [batch, hrest, front_bytes b hb.count_le]
  simp only [writeRows_of_neverFails d hout, rows_eq, hunknown, known_of_forall hb.known,
    Option.map_none, verdict]
  simp [behind, skip, hskip, Totals.addBatch]

/-- A batch with a record of unknown event type is taken whole, and its rows up to that record are
written. -/
theorem batch_of_unknown {d : Decoder} {out : Output σ} (hout : out.NeverFails) {b : StoredBatch}
    (hcap : b.records.length ≤ d.capacity) {raw : RawRecord} (hraw : d.unknown? b.raws = some raw)
    {v : Standing σ} {rest : List UInt8} (hrest : v.rest = b.bytes ++ rest) :
    v.batch d out =
      (.error (.unknownEvent (d.known b.raws).length raw.eventType d.eventNames.size),
        { v with rest, output := out.calls (((d.known b.raws).map d.rowOf).map .row) v.output }) := by
  have hskip : v.rest.drop b.bytes.length = rest := by rw [hrest, List.drop_left]
  rw [batch, hrest, front_bytes b hcap]
  simp only [writeRows_of_neverFails d hout, rows_eq, hraw, Option.map_some, verdict, Nat.zero_add]
  simp [skip, hskip]

/-- Accepted batches are passed over one by one. -/
theorem all_behind {d : Decoder} {out : Output σ} (hout : out.NeverFails)
    {batches : List StoredBatch} (hbatches : ∀ b ∈ batches, d.Accepts b) {v : Standing σ}
    {rest : List UInt8} (hrest : v.rest = batches.flatMap StoredBatch.bytes ++ rest) :
    v.all d out = (v.behind d out batches rest).all d out := by
  induction batches generalizing v with
  | nil =>
    have hv : v.behind d out [] rest = v := by
      rw [← show v.rest = rest from hrest]
      rfl
    rw [hv]
  | cons b batches ih =>
    obtain ⟨hb, hbatches⟩ := List.forall_mem_cons.1 hbatches
    rw [List.flatMap_cons, List.append_assoc] at hrest
    rw [all_of_decoded (batch_of_accepts hout hb hrest), ih hbatches rfl]
    congr 1
    simp only [behind, List.flatMap_cons, List.flatMap_nil, List.append_nil, List.map_append,
      Output.calls_append, List.length_append, List.length_cons, List.length_nil]
    congr 2 <;> omega

/-- Where the body ends, decoding ends with the totals so far. -/
theorem all_of_nil {d : Decoder} {out : Output σ} {v : Standing σ} (hrest : v.rest = [])
    (hending : v.ending = .endOfFile) : v.all d out = (.ok v.totals, v) := by
  have hfront : front d.capacity v.ending v.rest = (.ok none, 0) := by
    rw [hrest, hending]
    rfl
  have hbatch : v.batch d out = (.ok .endOfTrace, v.skip 0) := by rw [batch, hfront]
  exact all_of_endOfTrace hbatch

theorem batch_of_front_error {d : Decoder} {out : Output σ} {v : Standing σ} {fault : Fault}
    {taken : Nat} (h : front d.capacity v.ending v.rest = (.error fault, taken)) :
    v.batch d out = (.error fault, v.skip taken) := by
  rw [batch, h]

/-- Behind the last batch it does not matter which decoder goes on. -/
theorem all_eq_of_nil (d d' : Decoder) (out : Output σ) {v : Standing σ} (hrest : v.rest = []) :
    v.all d' out = v.all d out := by
  cases hending : v.ending with
  | endOfFile => rw [all_of_nil hrest hending, all_of_nil hrest hending]
  | failure fault =>
    have hbatch (d : Decoder) : v.batch d out = (.error (.io fault), v.skip 0) := by
      apply batch_of_front_error
      rw [hrest, hending]
      rfl
    rw [all_of_error (hbatch d), all_of_error (hbatch d')]

/-- A decoded batch is an accepted one. -/
theorem exists_of_batch_eq_decoded {d : Decoder} {out : Output σ} {v v' : Standing σ} {count : Nat}
    (h : v.batch d out = (.ok (.decoded count), v')) :
    ∃ b : StoredBatch, d.Accepts b ∧ v.rest = b.bytes ++ v'.rest := by
  have hrest := rest_batch d out v
  rw [h] at hrest
  cases hfront : front d.capacity v.ending v.rest with
  | mk found taken =>
    rw [batch, hfront] at h
    cases found with
    | error fault => simp at h
    | ok found =>
      cases found with
      | none => simp at h
      | some raws =>
        obtain ⟨b, hcount, rfl, hb⟩ := exists_batch_of_front (congrArg Prod.fst hfront)
        refine ⟨b, ⟨hcount, ?_⟩, hb.trans (by rw [hrest])⟩
        dsimp only at h
        split at h
        · simp at h
        · exact knows_of_writeRows_eq_ok ‹_›

/-- What is decoded to its end is made of accepted batches. -/
theorem exists_of_all_eq_ok {d : Decoder} {out : Output σ} {v v' : Standing σ} {totals : Totals}
    (h : v.all d out = (.ok totals, v')) :
    ∃ batches : List StoredBatch, (∀ b ∈ batches, d.Accepts b) ∧
      v.rest = batches.flatMap StoredBatch.bytes := by
  fun_induction all d out v with
  | case1 v fault v₁ hbatch => simp at h
  | case2 v v₁ hbatch =>
    refine ⟨[], by simp, ?_⟩
    have hfront : (front d.capacity v.ending v.rest).1 = .ok none := by
      unfold batch at hbatch
      split at hbatch
      · simp at hbatch
      · simp [*]
      · split at hbatch <;> simp at hbatch
    exact (front_eq_none hfront).1
  | case3 v count v₁ hbatch ih =>
    obtain ⟨b, hb, hrest⟩ := exists_of_batch_eq_decoded hbatch
    obtain ⟨batches, hbatches, hrest'⟩ := ih h
    refine ⟨b :: batches, List.forall_mem_cons.2 ⟨hb, hbatches⟩, ?_⟩
    rw [hrest, hrest', List.flatMap_cons]

end Standing

end ReactorTrace
