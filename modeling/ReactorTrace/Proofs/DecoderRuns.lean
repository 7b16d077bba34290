import ReactorTrace.Proofs.Rows
import ReactorTrace.Proofs.Standing

/-! One decoder called again and again. A run is any sequence of calls for one batch or for all
batches, and it goes on after faults. Every call for a batch has the effect that the bytes left give
it (`Effect`), be it the first call of a decoder or the last of a long run, and the totals count
exactly the batches that were decoded (`batch_after_run`). -/

namespace ReactorTrace.Decoder

variable {σ : Type}

/-! ### The effect of one call -/

/-- What a call for one batch does, by the bytes that are left: its result, the number of bytes that it
takes, and the state of the output after it. No row is written unless the whole batch is there. Then the
rows of the records before the first one of unknown event type are written, and that one is reported with
its place in the batch. -/
inductive Effect (d : Decoder) (out : Output σ) (ending : Ending) (s : σ) :
    List UInt8 → Except Fault BatchStatus → Nat → σ → Prop
  | endOfTrace (hend : ending = .endOfFile) :
    Effect d out ending s [] (.ok .endOfTrace) 0 s
  | shortLength (r : List UInt8) (hlen : r.length < 4) (hnot : r ≠ [] ∨ ending ≠ .endOfFile) :
    Effect d out ending s r (.error (ending.cut (.shortBatchLength r.length))) r.length s
  | negativeLength (n : Int32) (rest : List UInt8) (hneg : n.toInt < 0) :
    Effect d out ending s (LittleEndian.encodeInt32 n ++ rest) (.error (.negativeBatchLength n)) 4 s
  | longBatch (n : Int32) (rest : List UInt8) (hlong : d.capacity < n.toInt) :
    Effect d out ending s (LittleEndian.encodeInt32 n ++ rest) (.error (.longBatch n d.capacity)) 4 s
  | shortBatch (n : Nat) (rest : List UInt8) (hmax : n ≤ Encoder.maxCount) (hcap : n ≤ d.capacity)
      (hshort : rest.length < n * RawRecord.size) :
    Effect d out ending s (LittleEndian.encode 4 n ++ rest)
      (.error (ending.cut (.shortBatch n (n * RawRecord.size) rest.length))) (4 + rest.length) s
  | rowFails (n : Nat) (block rest : List UInt8) (hmax : n ≤ Encoder.maxCount) (hcap : n ≤ d.capacity)
      (hblock : block.length = n * RawRecord.size) (fault : Fault) (s' : σ)
      (hwrite : out.writeAll ((d.known (records block)).map d.rowOf) s = (.error fault, s')) :
    Effect d out ending s (LittleEndian.encode 4 n ++ (block ++ rest)) (.error fault)
      (4 + n * RawRecord.size) s'
  | unknownEvent (n : Nat) (block rest : List UInt8) (hmax : n ≤ Encoder.maxCount)
      (hcap : n ≤ d.capacity) (hblock : block.length = n * RawRecord.size) (raw : RawRecord) (s' : σ)
      (hwrite : out.writeAll ((d.known (records block)).map d.rowOf) s = (.ok (), s'))
      (hunknown : d.unknown? (records block) = some raw) :
    Effect d out ending s (LittleEndian.encode 4 n ++ (block ++ rest))
      (.error (.unknownEvent (d.known (records block)).length raw.eventType d.eventNames.size))
      (4 + n * RawRecord.size) s'
  | decoded (n : Nat) (block rest : List UInt8) (hmax : n ≤ Encoder.maxCount) (hcap : n ≤ d.capacity)
      (hblock : block.length = n * RawRecord.size) (s' : σ)
      (hwrite : out.writeAll ((records block).map d.rowOf) s = (.ok (), s'))
      (hknown : ∀ raw ∈ records block, d.eventNames.Knows raw.eventType) :
    Effect d out ending s (LittleEndian.encode 4 n ++ (block ++ rest)) (.ok (.decoded n))
      (4 + n * RawRecord.size) s'

/-- The effect of a batch that is there whole. -/
theorem effect_block (d : Decoder) (out : Output σ) (ending : Ending) (s : σ) {n : Nat}
    {block : List UInt8} (hmax : n ≤ Encoder.maxCount) (hcap : n ≤ d.capacity)
    (hblock : block.length = n * RawRecord.size) (rest : List UInt8) :
    let written := d.writeRows out 0 (records block) s
    Effect d out ending s (LittleEndian.encode 4 n ++ (block ++ rest))
      (written.1.map fun _ => .decoded n) (4 + n * RawRecord.size) written.2 := by
  intro written
  have hwritten : written = _ := d.writeRows_eq out 0 (records block) s
  rw [hwritten, rows_eq, Nat.zero_add]
  dsimp only
  cases hwrite : out.writeAll ((d.known (records block)).map d.rowOf) s with
  | mk result s' =>
    cases result with
    | error fault => exact .rowFails n block rest hmax hcap hblock fault s' hwrite
    | ok _ =>
      cases hunknown : d.unknown? (records block) with
      | some raw => exact .unknownEvent n block rest hmax hcap hblock raw s' hwrite hunknown
      | none =>
        have hknown := unknown?_eq_none_iff.1 hunknown
        rw [known_of_forall hknown] at hwrite
        exact .decoded n block rest hmax hcap hblock s' hwrite hknown

/-- Every call for a batch has the effect of the bytes that are left. -/
theorem effect_standing (d : Decoder) (out : Output σ) (v : Standing σ) :
    Effect d out v.ending v.output v.rest (v.batch d out).1 (front d.capacity v.ending v.rest).2
      (v.batch d out).2.output := by
  unfold Standing.batch front
  by_cases hshort : v.rest.length < 4
  · rw [if_pos hshort]
    by_cases hend : v.rest = [] ∧ v.ending = .endOfFile
    · rw [if_pos hend, hend.1]
      exact .endOfTrace hend.2
    · rw [if_neg hend]
      exact .shortLength v.rest hshort (Classical.not_and_iff_not_or_not.1 hend)
  · have hlen : (v.rest.take 4).length = 4 := List.length_take_of_le (by omega)
    have hsplit : v.rest = v.rest.take 4 ++ v.rest.drop 4 := (List.take_append_drop 4 v.rest).symm
    have hrest : (v.rest.drop 4).length = v.rest.length - 4 := List.length_drop
    generalize v.rest.drop 4 = rest at hsplit hrest ⊢
    rw [if_neg hshort]
    rcases checkLength_cases d.capacity hlen with ⟨n, hn, hneg, hc⟩ | ⟨n, hn, hlong, hc⟩ |
      ⟨n, hn, hmax, hcap, hc⟩
    · rw [hc, hsplit, hn]
      exact .negativeLength n _ hneg
    · rw [hc, hsplit, hn]
      exact .longBatch n _ hlong
    · rw [hc]
      dsimp only
      by_cases hcut : v.rest.length < 4 + n * RawRecord.size
      · rw [if_pos hcut]
        have heffect : Effect d out v.ending v.output _ _ _ _ :=
          .shortBatch n rest hmax hcap (by omega)
        rwa [← hn, ← hsplit, hrest, show 4 + (v.rest.length - 4) = v.rest.length by omega] at heffect
      · rw [if_neg hcut]
        have hblock : (rest.take (n * RawRecord.size)).length = n * RawRecord.size :=
          List.length_take_of_le (by omega)
        have hrest' : rest = rest.take (n * RawRecord.size) ++ rest.drop (n * RawRecord.size) :=
          (List.take_append_drop ..).symm
        have hcount := length_records hblock
        have heffect := d.effect_block out v.ending v.output hmax hcap hblock
          (rest.drop (n * RawRecord.size))
        rw [← hrest', ← hn, ← hsplit] at heffect
        dsimp only at heffect ⊢
        rw [hcount]
        cases hwrite : d.writeRows out 0 (records (rest.take (n * RawRecord.size))) v.output with
        | mk result output =>
          rw [hwrite] at heffect
          cases result <;> exact heffect

/-! ### Runs -/

inductive Call
  | batch
  | all
deriving DecidableEq

/-- The decoding after a call, be its result a fault or not. -/
def Call.perform (d : Decoder) (out : Output σ) (st : Decoding σ) : Call → Decoding σ
  | batch => (d.batch out st).2
  | all => (d.all out st).2

def run (d : Decoder) (out : Output σ) (calls : List Call) (st : Decoding σ) : Decoding σ :=
  calls.foldl (Call.perform d out) st

/-- Calls for one batch after another, with their results. -/
inductive Batches (d : Decoder) (out : Output σ) :
    Decoding σ → List (Except Fault BatchStatus) → Decoding σ → Prop
  | nil (st : Decoding σ) : Batches d out st [] st
  | cons {st st' : Decoding σ} {results : List (Except Fault BatchStatus)}
      (more : Batches d out (d.batch out st).2 results st') :
    Batches d out st ((d.batch out st).1 :: results) st'

/-- The sizes of the batches that calls with these results decoded. -/
def sizes (results : List (Except Fault BatchStatus)) : List Nat :=
  results.filterMap fun
    | .ok (.decoded count) => some count
    | _ => none

theorem Batches.append {d : Decoder} {out : Output σ} {st st₁ st₂ : Decoding σ}
    {results more : List (Except Fault BatchStatus)} (h : Batches d out st results st₁)
    (h' : Batches d out st₁ more st₂) : Batches d out st (results ++ more) st₂ := by
  induction h with
  | nil st => exact h'
  | cons _ ih => exact .cons (ih h')

theorem totals_batch (d : Decoder) (out : Output σ) (st : Decoding σ) :
    (d.batch out st).2.totals = match (d.batch out st).1 with
      | .ok (.decoded count) => st.totals.addBatch count
      | _ => st.totals := by
  have h := Standing.totals_batch d out st.standing
  rwa [batch_standing] at h

theorem Batches.ending_eq {d : Decoder} {out : Output σ} {st st' : Decoding σ}
    {results : List (Except Fault BatchStatus)} (h : Batches d out st results st') :
    st'.source.ending = st.source.ending := by
  induction h with
  | nil st => rfl
  | @cons st st' results more ih =>
    have hending := Standing.ending_batch d out st.standing
    rw [batch_standing] at hending
    exact ih.trans hending

theorem rest_batch (d : Decoder) (out : Output σ) (st : Decoding σ) :
    (d.batch out st).2.source.rest =
      st.source.rest.drop (front d.capacity st.source.ending st.source.rest).2 := by
  have h := Standing.rest_batch d out st.standing
  rwa [batch_standing] at h

/-- A new decoder over the bytes that are left does what an old one does, apart from the totals. -/
theorem batch_anew (d : Decoder) (out : Output σ) (st : Decoding σ) (delivery : Delivery) :
    let anew := d.batch out (.start (.ofBytes st.source.rest st.source.ending delivery) st.output)
    (d.batch out st).1 = anew.1 ∧ (d.batch out st).2.output = anew.2.output ∧
      (d.batch out st).2.source.rest = anew.2.source.rest ∧
      (d.batch out st).2.totals = ⟨st.totals.batches + anew.2.totals.batches,
        st.totals.records + anew.2.totals.records⟩ := by
  intro anew
  obtain ⟨hresult, houtput⟩ := Standing.batch_with_totals d out st.standing ⟨0, 0⟩
  have hanew := d.batch_standing out
    (.start (.ofBytes st.source.rest st.source.ending delivery) st.output)
  have hst := d.batch_standing out st
  have hstart : (Decoding.start (.ofBytes st.source.rest st.source.ending delivery)
      st.output).standing = { st.standing with totals := ⟨0, 0⟩ } := rfl
  rw [hstart] at hanew
  rw [hanew, hst] at hresult houtput
  have htotals : anew.2.totals = _ := totals_batch ..
  refine ⟨hresult.symm, houtput.symm, by rw [rest_batch, rest_batch]; rfl, ?_⟩
  rw [totals_batch, htotals, hresult]
  cases (d.batch out st).1 with
  | error fault => simp [Decoding.start]
  | ok status => cases status <;> simp [Decoding.start, Totals.addBatch]

/-- The totals count the decoded batches and their records. -/
theorem Batches.totals_eq {d : Decoder} {out : Output σ} {st st' : Decoding σ}
    {results : List (Except Fault BatchStatus)} (h : Batches d out st results st') :
    st'.totals = (sizes results).foldl Totals.addBatch st.totals := by
  induction h with
  | nil st => rfl
  | @cons st st' results more ih =>
    rw [ih, totals_batch]
    cases hresult : (d.batch out st).1 with
    | error fault => simp [sizes]
    | ok status =>
      cases status with
      | endOfTrace => simp [sizes]
      | decoded count => simp [sizes]

/-- A call for all batches calls for one after the other until one is not decoded. -/
theorem batches_all (d : Decoder) (out : Output σ) (st : Decoding σ) :
    ∃ (counts : List Nat) (st' : Decoding σ),
      Batches d out st (counts.map fun count => .ok (.decoded count)) st' ∧
      (∀ count, (d.batch out st').1 ≠ .ok (.decoded count)) ∧
      d.all out st =
        ((d.batch out st').1.map fun _ => (d.batch out st').2.totals, (d.batch out st').2) := by
  fun_induction all d out st with
  | case1 st fault st' h => exact ⟨[], st, .nil st, by simp [h], by simp [h, Except.map]⟩
  | case2 st st' h => exact ⟨[], st, .nil st, by simp [h], by simp [h, Except.map]⟩
  | case3 st count st' h ih =>
    obtain ⟨counts, st₁, hbatches, hlast, hall⟩ := ih
    refine ⟨count :: counts, st₁, ?_, hlast, hall⟩
    have hcons : Batches d out st ((d.batch out st).1 :: _) st₁ := .cons (by rw [h]; exact hbatches)
    rwa [h] at hcons

/-- Whatever is called, the decoding is where calls for single batches would have brought it. -/
theorem exists_batches_run (d : Decoder) (out : Output σ) (calls : List Call) (st : Decoding σ) :
    ∃ results, Batches d out st results (d.run out calls st) := by
  induction calls generalizing st with
  | nil => exact ⟨[], .nil st⟩
  | cons call calls ih =>
    rw [run, List.foldl_cons]
    obtain ⟨results, hresults⟩ := ih (call.perform d out st)
    cases call with
    | batch => exact ⟨_, .cons hresults⟩
    | all =>
      obtain ⟨_, st', hbatches, -, hall⟩ := batches_all d out st
      have hst : Call.perform d out st .all = (d.batch out st').2 := congrArg Prod.snd hall
      rw [hst] at hresults ⊢
      exact ⟨_, hbatches.append (.cons hresults)⟩

/-- A call for one batch after any run. It has the effect of the bytes left and takes no others; a new
decoder over the same bytes does the same, with the totals it starts from; and the totals are those of
the batches decoded so far. A call for all batches then calls until one is not decoded. -/
theorem batch_after_run (d : Decoder) (out : Output σ) (source : Source) (s : σ)
    (calls : List Call) :
    let st := d.run out calls (.start source s)
    let here := d.batch out st
    (∃ taken, Effect d out source.ending st.output st.source.rest here.1 taken here.2.output ∧
      taken ≤ st.source.rest.length ∧ here.2.source.rest = st.source.rest.drop taken) ∧
    (∀ delivery : Delivery,
      let anew := d.batch out (.start (.ofBytes st.source.rest source.ending delivery) st.output)
      here.1 = anew.1 ∧ here.2.output = anew.2.output ∧
      here.2.source.rest = anew.2.source.rest ∧
      here.2.totals = ⟨st.totals.batches + anew.2.totals.batches,
        st.totals.records + anew.2.totals.records⟩) ∧
    (∃ results, Batches d out (.start source s) results st ∧
      st.totals = (sizes results).foldl Totals.addBatch ⟨0, 0⟩) ∧
    ∃ (counts : List Nat) (st' : Decoding σ),
      Batches d out st (counts.map fun count => .ok (.decoded count)) st' ∧
      (∀ count, (d.batch out st').1 ≠ .ok (.decoded count)) ∧
      d.all out st =
        ((d.batch out st').1.map fun _ => (d.batch out st').2.totals, (d.batch out st').2) := by
  intro st here
  obtain ⟨results, hresults⟩ := d.exists_batches_run out calls (.start source s)
  have hending : st.source.ending = source.ending := hresults.ending_eq
  have hbatch := d.batch_standing out st
  refine ⟨⟨(front d.capacity st.source.ending st.source.rest).2, ?_, front_le .., ?_⟩, ?_,
    ⟨results, hresults, ?_⟩, d.batches_all out st⟩
  · have heffect := d.effect_standing out st.standing
    rw [hbatch] at heffect
    rwa [← hending]
  · have hrest := Standing.rest_batch d out st.standing
    rwa [hbatch] at hrest
  · intro delivery
    rw [← hending]
    exact d.batch_anew out st delivery
  · exact hresults.totals_eq

end ReactorTrace.Decoder
