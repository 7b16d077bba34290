import ReactorTrace.Proofs.Reading
import ReactorTrace.Batch
import ReactorTrace.Encoder

/-! Decoding seen from the bytes. The standing of a decoding is the bytes that are left, how they end,
the totals and the output. It decides all that further calls do (`batch_standing`, `all_standing`):
how the calls on the stream are answered and what an earlier batch left in the buffer have no part
in it. -/

namespace ReactorTrace

structure Standing (σ : Type) where
  rest : List UInt8
  ending : Ending
  totals : Totals
  output : σ

variable {σ : Type}

def Decoding.standing (st : Decoding σ) : Standing σ :=
  ⟨st.source.rest, st.source.ending, st.totals, st.output⟩

namespace Decoder

/-! ### Blocks of records -/

theorem records_of_length_lt {bs : List UInt8} (h : bs.length < RawRecord.size) : records bs = [] := by
  have hdrop : bs.drop (RawRecord.size - 1) = [] := List.drop_eq_nil_iff.2 (Nat.le_pred_of_lt h)
  rw [records]
  split
  · rfl
  · rename_i heq
    simp [hdrop] at heq

theorem records_append {block : List UInt8} (h : block.length = RawRecord.size) (bs : List UInt8) :
    records (block ++ bs) = RawRecord.ofBlock block :: records bs := by
  obtain ⟨b, hb⟩ : ∃ b, block.drop (RawRecord.size - 1) = [b] := by
    apply List.length_eq_one_iff.1
    rw [List.length_drop, h]
    rfl
  have hdrop : (block ++ bs).drop (RawRecord.size - 1) = b :: bs := by
    rw [List.drop_append_of_le_length (by rw [h]; decide), hb, List.singleton_append]
  rw [records]
  split
  · rename_i heq
    simp [hdrop] at heq
  · rename_i b' rest heq
    rw [hdrop] at heq
    obtain ⟨-, rfl⟩ := List.cons_eq_cons.1 heq
    rw [List.take_left' h]

theorem length_records {count : Nat} {bs : List UInt8} (h : bs.length = count * RawRecord.size) :
    (records bs).length = count := by
  induction count generalizing bs with
  | zero => rw [records_of_length_lt (by rw [h]; decide), List.length_nil]
  | succ count ih =>
    rw [Nat.succ_mul] at h
    have hsplit : bs.take RawRecord.size ++ bs.drop RawRecord.size = bs := List.take_append_drop ..
    have hblock : (bs.take RawRecord.size).length = RawRecord.size := by
      rw [List.length_take]
      omega
    have hmore : (bs.drop RawRecord.size).length = count * RawRecord.size := by
      rw [List.length_drop, h, Nat.add_sub_cancel]
    rw [← hsplit, records_append hblock, List.length_cons, ih hmore]

/-! ### One batch -/

/-- The length of a batch is refused, or it is a count within the capacity. -/
theorem checkLength_cases (capacity : Nat) {bs : List UInt8} (h : bs.length = 4) :
    (∃ n : Int32, bs = LittleEndian.encodeInt32 n ∧ n.toInt < 0 ∧
      checkLength capacity (LittleEndian.decodeInt32 bs) = .error (.negativeBatchLength n)) ∨
    (∃ n : Int32, bs = LittleEndian.encodeInt32 n ∧ capacity < n.toInt ∧
      checkLength capacity (LittleEndian.decodeInt32 bs) = .error (.longBatch n capacity)) ∨
    (∃ n : Nat, bs = LittleEndian.encode 4 n ∧ n ≤ Encoder.maxCount ∧ n ≤ capacity ∧
      checkLength capacity (LittleEndian.decodeInt32 bs) = .ok n) := by
  have hbs := LittleEndian.encodeInt32_decodeInt32 h
  have hmax := LittleEndian.toNat_decodeInt32_le bs
  have hcount := fun hnonneg => LittleEndian.encode_decodeInt32 h hnonneg
  generalize LittleEndian.decodeInt32 bs = n at hbs hmax hcount
  unfold checkLength
  by_cases hneg : n < 0
  · have hneg' : n.toInt < 0 := Int32.lt_iff_toInt_lt.1 hneg
    exact .inl ⟨n, hbs.symm, hneg', if_pos hneg⟩
  · have hnonneg : 0 ≤ n.toInt := Int.not_lt.1 fun hlt => hneg (Int32.lt_iff_toInt_lt.2 hlt)
    rw [if_neg hneg]
    by_cases hlong : capacity < n.toInt.toNat
    · exact .inr (.inl ⟨n, hbs.symm, by omega, if_pos hlong⟩)
    · exact .inr (.inr ⟨n.toInt.toNat, (hcount hnonneg).symm, hmax, by omega, if_neg hlong⟩)

/-- What stands at the front of the bytes `r` left of a body: the records of a batch, the end of the
trace, or a fault; and how many of the bytes it takes to find this out. -/
def front (capacity : Nat) (ending : Ending) (r : List UInt8) :
    Except Fault (Option (List RawRecord)) × Nat :=
  if r.length < 4 then
    (if r = [] ∧ ending = .endOfFile then .ok none
      else .error (ending.cut (.shortBatchLength r.length)), r.length)
  else
    match checkLength capacity (LittleEndian.decodeInt32 (r.take 4)) with
    | .error fault => (.error fault, 4)
    | .ok count =>
      if r.length < 4 + count * RawRecord.size then
        (.error (ending.cut (.shortBatch count (count * RawRecord.size) (r.length - 4))), r.length)
      else
        (.ok (some (records ((r.drop 4).take (count * RawRecord.size)))), 4 + count * RawRecord.size)

/-- A batch takes the bytes of its length and of its records, all of which are there. -/
theorem front_taken {capacity : Nat} {ending : Ending} {r : List UInt8} {raws : List RawRecord}
    (h : (front capacity ending r).1 = .ok (some raws)) :
    (front capacity ending r).2 = 4 + raws.length * RawRecord.size ∧
      4 + raws.length * RawRecord.size ≤ r.length := by
  unfold front at h ⊢
  by_cases hshort : r.length < 4
  · rw [if_pos hshort] at h
    split at h <;> simp at h
  · rw [if_neg hshort] at h ⊢
    cases hcheck : checkLength capacity (LittleEndian.decodeInt32 (r.take 4)) with
    | error fault => simp [hcheck] at h
    | ok count =>
      simp only [hcheck] at h ⊢
      by_cases hcut : r.length < 4 + count * RawRecord.size
      · simp [if_pos hcut] at h
      · simp only [if_neg hcut, Except.ok.injEq, Option.some.injEq] at h ⊢
        have hlen : raws.length = count := by
          rw [← h]
          apply length_records
          rw [List.length_take, List.length_drop]
          omega
        rw [hlen]
        exact ⟨rfl, by omega⟩

theorem front_le (capacity : Nat) (ending : Ending) (r : List UInt8) :
    (front capacity ending r).2 ≤ r.length := by
  unfold front
  split
  · exact Nat.le_refl _
  · split
    · dsimp only
      omega
    · split
      · exact Nat.le_refl _
      · dsimp only
        omega

theorem readLength_apply (capacity : Nat) (s : Source) :
    readLength capacity s =
      (if s.rest.length < 4 then
        (if s.rest = [] ∧ s.ending = .endOfFile then .ok none
          else .error (s.ending.cut (.shortBatchLength s.rest.length)))
        else (checkLength capacity (LittleEndian.decodeInt32 (s.rest.take 4))).map some,
        (s.collect 4).2) := by
  unfold readLength
  rw [Reading.bind_apply, Reading.bytes_apply]
  by_cases h : s.rest.length < 4
  · rw [Source.available_cut s 4 h, if_pos h]
    cases s.ending with
    | failure fault => simp [Ending.cut]
    | endOfFile =>
      by_cases hnil : s.rest = []
      · simp [hnil, Reading.pure_apply]
      · have hpos : s.rest.length ≠ 0 := fun h0 => hnil (List.length_eq_zero_iff.1 h0)
        simp [hnil, h, Reading.fail_apply, Ending.cut]
  · have hlen : (s.rest.take 4).length = 4 := by
      rw [List.length_take]
      omega
    rw [Source.available_eq_take (by omega), if_neg h]
    simp only [hlen]
    cases checkLength capacity (LittleEndian.decodeInt32 (s.rest.take 4)) <;> rfl

theorem fillBuffer_fst (count : Nat) (st : Decoding σ) :
    (fillBuffer count st).1 =
      if (st.source.rest.take (count * RawRecord.size)).length = count * RawRecord.size then .ok ()
      else .error (st.source.ending.cut (.shortBatch count (count * RawRecord.size)
        (st.source.rest.take (count * RawRecord.size)).length)) := by
  simp only [fillBuffer, Source.append_fst]
  by_cases h : count * RawRecord.size ≤ st.source.rest.length
  · rw [Source.available_eq_take h]
    simp only [Except.map, checkBlock]
    cases st.source.ending <;> simp [h]
  · rw [Source.available_cut _ _ (by omega)]
    have hlen : (st.source.rest.take (count * RawRecord.size)).length = st.source.rest.length := by
      rw [List.length_take]
      omega
    have hne : ¬ st.source.rest.length = count * RawRecord.size := by omega
    rw [hlen, if_neg hne]
    cases st.source.ending with
    | endOfFile => simp only [Except.map, checkBlock, if_neg hne, Ending.cut]
    | failure fault => rfl

theorem fillBuffer_snd (count : Nat) (st : Decoding σ) :
    (fillBuffer count st).2 = { st with
      source := (st.source.collect (count * RawRecord.size)).2
      buffer := st.source.rest.take (count * RawRecord.size) } := by
  simp only [fillBuffer, Source.append_fst, Source.append_snd, List.nil_append]

/-- Loading finds what stands at the front of the bytes, whatever is in the buffer before. -/
theorem load_apply (capacity : Nat) (st : Decoding σ) :
    ∃ source buffer,
      load capacity st =
        ((front capacity st.source.ending st.source.rest).1.map (Option.map List.length),
          { st with source, buffer }) ∧
      source.rest = st.source.rest.drop (front capacity st.source.ending st.source.rest).2 ∧
      source.ending = st.source.ending ∧
      ∀ raws, (front capacity st.source.ending st.source.rest).1 = .ok (some raws) →
        records buffer = raws := by
  unfold load front
  rw [readLength_apply]
  by_cases hshort : st.source.rest.length < 4
  · have hdrop : (st.source.collect 4).2.rest = st.source.rest.drop st.source.rest.length := by
      rw [Source.rest_collect, List.drop_length, List.drop_eq_nil_iff]
      omega
    rw [if_pos hshort, if_pos hshort]
    by_cases hend : st.source.rest = [] ∧ st.source.ending = .endOfFile
    · rw [if_pos hend, if_pos hend]
      exact ⟨_, _, rfl, hdrop, Source.ending_collect .., by simp⟩
    · rw [if_neg hend, if_neg hend]
      exact ⟨_, _, rfl, hdrop, Source.ending_collect .., by simp⟩
  · rw [if_neg hshort, if_neg hshort]
    cases checkLength capacity (LittleEndian.decodeInt32 (st.source.rest.take 4)) with
    | error fault =>
      exact ⟨_, _, rfl, Source.rest_collect .., Source.ending_collect .., by simp⟩
    | ok count =>
      have hfst := fillBuffer_fst count { st with source := (st.source.collect 4).2 }
      have hsnd := fillBuffer_snd count { st with source := (st.source.collect 4).2 }
      simp only [Source.rest_collect, Source.ending_collect] at hfst hsnd
      dsimp only [Except.map]
      rw [← Prod.eta (fillBuffer count _), hfst, hsnd]
      by_cases hcut : st.source.rest.length < 4 + count * RawRecord.size
      · have hlen : ((st.source.rest.drop 4).take (count * RawRecord.size)).length =
            st.source.rest.length - 4 := by
          rw [List.length_take, List.length_drop]
          omega
        rw [if_pos hcut, hlen, if_neg (by omega)]
        refine ⟨_, _, rfl, ?_, by simp, by simp⟩
        rw [Source.rest_collect, Source.rest_collect, List.drop_drop, List.drop_length,
          List.drop_eq_nil_iff]
        omega
      · have hfull : ((st.source.rest.drop 4).take (count * RawRecord.size)).length =
            count * RawRecord.size := by
          rw [List.length_take, List.length_drop]
          omega
        rw [if_neg hcut, if_pos hfull]
        refine ⟨((st.source.collect 4).2.collect (count * RawRecord.size)).2,
          (st.source.rest.drop 4).take (count * RawRecord.size), ?_, ?_, by simp, fun raws h => ?_⟩
        · simp only [Option.map, length_records hfull]
        · rw [Source.rest_collect, Source.rest_collect, List.drop_drop]
        · simpa using h

end Decoder

namespace Standing

/-- The first `taken` bytes are taken. -/
def skip (v : Standing σ) (taken : Nat) : Standing σ := { v with rest := v.rest.drop taken }

/-- A call for one batch. -/
def batch (d : Decoder) (out : Output σ) (v : Standing σ) : Except Fault BatchStatus × Standing σ :=
  match Decoder.front d.capacity v.ending v.rest with
  | (.error fault, taken) => (.error fault, v.skip taken)
  | (.ok none, taken) => (.ok .endOfTrace, v.skip taken)
  | (.ok (some raws), taken) =>
    match d.writeRows out 0 raws v.output with
    | (.error fault, output) => (.error fault, { v.skip taken with output })
    | (.ok (), output) =>
      (.ok (.decoded raws.length),
        { v.skip taken with output, totals := v.totals.addBatch raws.length })

theorem rest_batch (d : Decoder) (out : Output σ) (v : Standing σ) :
    (v.batch d out).2.rest = v.rest.drop (Decoder.front d.capacity v.ending v.rest).2 := by
  unfold batch
  split
  · simp [skip, *]
  · simp [skip, *]
  · split <;> simp [skip, *]

theorem ending_batch (d : Decoder) (out : Output σ) (v : Standing σ) :
    (v.batch d out).2.ending = v.ending := by
  unfold batch
  split
  · rfl
  · rfl
  · split <;> rfl

/-- A batch counts when all its rows are written, and nothing else counts. -/
theorem totals_batch (d : Decoder) (out : Output σ) (v : Standing σ) :
    (v.batch d out).2.totals = match (v.batch d out).1 with
      | .ok (.decoded count) => v.totals.addBatch count
      | _ => v.totals := by
  unfold batch
  split
  · rfl
  · rfl
  · split <;> rfl

/-- What a call does does not depend on the totals. -/
theorem batch_with_totals (d : Decoder) (out : Output σ) (v : Standing σ) (totals : Totals) :
    ({ v with totals }.batch d out).1 = (v.batch d out).1 ∧
      ({ v with totals }.batch d out).2.output = (v.batch d out).2.output := by
  unfold batch
  dsimp only
  split
  · exact ⟨rfl, rfl⟩
  · exact ⟨rfl, rfl⟩
  · split <;> exact ⟨rfl, rfl⟩

/-- A decoded batch takes the bytes of its length and of its records. -/
theorem length_rest_of_decoded {d : Decoder} {out : Output σ} {v v' : Standing σ} {count : Nat}
    (h : v.batch d out = (.ok (.decoded count), v')) :
    v'.rest.length + (4 + count * RawRecord.size) = v.rest.length := by
  unfold batch at h
  split at h
  · simp at h
  · simp at h
  · rename_i raws taken hfront
    have htaken := Decoder.front_taken (congrArg Prod.fst hfront)
    rw [hfront] at htaken
    split at h
    · simp at h
    · simp only [Prod.mk.injEq, Except.ok.injEq, BatchStatus.decoded.injEq] at h
      obtain ⟨rfl, rfl⟩ := h
      simp only [skip, List.length_drop]
      omega

theorem length_rest_batch {d : Decoder} {out : Output σ} {v v' : Standing σ} {count : Nat}
    (h : v.batch d out = (.ok (.decoded count), v')) : v'.rest.length < v.rest.length := by
  have hlen := length_rest_of_decoded h
  omega

/-- Calls for batches until there is none. -/
def all (d : Decoder) (out : Output σ) (v : Standing σ) : Except Fault Totals × Standing σ :=
  match _h : v.batch d out with
  | (.error fault, v') => (.error fault, v')
  | (.ok .endOfTrace, v') => (.ok v'.totals, v')
  | (.ok (.decoded _), v') => v'.all d out
termination_by v.rest.length
decreasing_by exact length_rest_batch _h

theorem all_of_error {d : Decoder} {out : Output σ} {v v' : Standing σ} {fault : Fault}
    (h : v.batch d out = (.error fault, v')) : v.all d out = (.error fault, v') := by
  rw [all]
  split <;> simp_all

theorem all_of_endOfTrace {d : Decoder} {out : Output σ} {v v' : Standing σ}
    (h : v.batch d out = (.ok .endOfTrace, v')) : v.all d out = (.ok v'.totals, v') := by
  rw [all]
  split <;> simp_all

theorem all_of_decoded {d : Decoder} {out : Output σ} {v v' : Standing σ} {count : Nat}
    (h : v.batch d out = (.ok (.decoded count), v')) : v.all d out = v'.all d out := by
  rw [all]
  split <;> simp_all

end Standing

namespace Decoder

theorem batch_standing (d : Decoder) (out : Output σ) (st : Decoding σ) :
    st.standing.batch d out = ((d.batch out st).1, (d.batch out st).2.standing) := by
  obtain ⟨source, buffer, hload, hrest, hending, hrecords⟩ := load_apply d.capacity st
  unfold batch Standing.batch Decoding.standing
  rw [hload]
  cases hfront : front d.capacity st.source.ending st.source.rest with
  | mk found taken =>
    rw [hfront] at hrest hrecords
    cases found with
    | error fault => simp [Except.map, Standing.skip, hrest, hending]
    | ok found =>
      cases found with
      | none => simp [Except.map, Standing.skip, hrest, hending]
      | some raws =>
        simp only [Except.map, Option.map, hrecords raws rfl]
        cases d.writeRows out 0 raws st.output with
        | mk result output => cases result <;> simp [Standing.skip, hrest, hending]

theorem all_standing (d : Decoder) (out : Output σ) (st : Decoding σ) :
    st.standing.all d out = ((d.all out st).1, (d.all out st).2.standing) := by
  fun_induction all d out st with
  | case1 st fault st' h =>
    have hbatch := d.batch_standing out st
    rw [h] at hbatch
    exact Standing.all_of_error hbatch
  | case2 st st' h =>
    have hbatch := d.batch_standing out st
    rw [h] at hbatch
    exact Standing.all_of_endOfTrace hbatch
  | case3 st count st' h ih =>
    have hbatch := d.batch_standing out st
    rw [h] at hbatch
    rw [Standing.all_of_decoded hbatch, ih]

end Decoder

end ReactorTrace
