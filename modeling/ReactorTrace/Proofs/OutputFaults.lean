import ReactorTrace.Proofs.Acceptance

/-! Conversion to an output whose calls fail. Which calls are made, and what is reported, follows from
the run with an output that never fails: the first row call that fails ends the rows with its fault,
the flush is made all the same, and a fault of the flush counts only when there is no other
(`convert_with_faults`). -/

namespace ReactorTrace

namespace OutputFaults

/-- None of the `count` row calls from number `start` on fails. -/
def Spares (faults : OutputFaults) (start count : Nat) : Prop :=
  ∀ j < count, faults.row (start + j) = .none

/-- Of the row calls from number `start` on, the one `k` calls later is the first that fails. -/
structure FirstAt (faults : OutputFaults) (start k : Nat) (fault : Fault) : Prop where
  fails : faults.row (start + k) = some fault
  spares : faults.Spares start k

variable {faults : OutputFaults} {start count k : Nat} {fault : Fault}

theorem Spares.of_add {more : Nat} (h : faults.Spares start (count + more)) :
    faults.Spares start count ∧ faults.Spares (start + count) more := by
  constructor
  · intro j hj
    exact h j (by omega)
  · intro j hj
    rw [Nat.add_assoc]
    exact h (count + j) (by omega)

/-- The first failing call is among the next `count`, or these are spared. -/
theorem FirstAt.lt_or_skip (h : faults.FirstAt start k fault) (count : Nat) :
    k < count ∨ ∃ k', k = count + k' ∧ faults.Spares start count ∧
      faults.FirstAt (start + count) k' fault := by
  by_cases hk : k < count
  · exact .inl hk
  · obtain ⟨k', rfl⟩ := Nat.exists_eq_add_of_le (Nat.not_lt.1 hk)
    obtain ⟨hcount, hmore⟩ := h.spares.of_add
    refine .inr ⟨k', rfl, hcount, ?_, hmore⟩
    rw [Nat.add_assoc]
    exact h.fails

theorem spares_or_firstAt (faults : OutputFaults) (start count : Nat) :
    faults.Spares start count ∨ ∃ k fault, k < count ∧ faults.FirstAt start k fault := by
  induction count with
  | zero => exact .inl fun j hj => absurd hj (Nat.not_lt_zero j)
  | succ count ih =>
    rcases ih with hspares | ⟨k, fault, hk, hfirst⟩
    · cases hlast : faults.row (start + count) with
      | some fault => exact .inr ⟨count, fault, Nat.lt_succ_self count, hlast, hspares⟩
      | none =>
        refine .inl fun j hj => ?_
        rcases Nat.lt_succ_iff_lt_or_eq.1 hj with hj | rfl
        · exact hspares j hj
        · exact hlast
    · exact .inr ⟨k, fault, Nat.lt_succ_of_lt hk, hfirst⟩

end OutputFaults

namespace Recording

variable {faults : OutputFaults}

theorem rows_calls (rows : List Row) (s : Recording) :
    ((output .none).calls (rows.map .row) s).rows = s.rows + rows.length := by
  induction rows generalizing s with
  | nil => rfl
  | cons r rows ih =>
    rw [List.map_cons, Output.calls_cons, ih, List.length_cons, Nat.add_comm rows.length,
      ← Nat.add_assoc]
    rfl

theorem row_of_none {s : Recording} (h : faults.row s.rows = .none) (r : Row) :
    (output faults).row r s = (.ok (), (output .none).call s (.row r)) := by
  have hrow : (output faults).row r s = (outcome (faults.row s.rows), _) := rfl
  rw [hrow, h]
  rfl

theorem row_of_some {s : Recording} {fault : Fault} (h : faults.row s.rows = some fault) (r : Row) :
    (output faults).row r s = (.error fault, (output .none).call s (.row r)) := by
  have hrow : (output faults).row r s = (outcome (faults.row s.rows), _) := rfl
  rw [hrow, h]
  rfl

theorem title_of_none (h : faults.title = .none) (s : Recording) :
    (output faults).title s = (.ok (), (output .none).call s .title) := by
  have htitle : (output faults).title s = (outcome faults.title, _) := rfl
  rw [htitle, h]
  rfl

/-- The calls of a conversion whose rows these are. -/
theorem calls_conversion (rows : List Row) :
    ((output .none).call ((output .none).calls (rows.map .row) ((output .none).call .empty .title))
      .flush).calls = (.title :: (rows.map .row ++ [.flush])).toArray := by
  have hcalls := calls_output .none (.title :: (rows.map .row ++ [.flush])) .empty
  rw [Output.calls_cons, Output.calls_append] at hcalls
  exact hcalls.trans (Array.empty_append ..)

theorem writeAll_of_spares {rows : List Row} {s : Recording}
    (h : faults.Spares s.rows rows.length) :
    (output faults).writeAll rows s = (.ok (), (output .none).calls (rows.map .row) s) := by
  induction rows generalizing s with
  | nil => rfl
  | cons r rows ih =>
    rw [List.length_cons, Nat.add_comm] at h
    obtain ⟨hfirst, hmore⟩ := h.of_add
    rw [Output.writeAll, row_of_none (hfirst 0 Nat.one_pos), List.map_cons, Output.calls_cons]
    exact ih hmore

theorem writeAll_of_firstAt {rows : List Row} {s : Recording} {k : Nat} {fault : Fault}
    (hk : k < rows.length) (h : faults.FirstAt s.rows k fault) :
    (output faults).writeAll rows s =
      (.error fault, (output .none).calls ((rows.take (k + 1)).map .row) s) := by
  induction rows generalizing s k with
  | nil => simp at hk
  | cons r rows ih =>
    rw [Output.writeAll, List.take_succ_cons, List.map_cons, Output.calls_cons]
    rcases h.lt_or_skip 1 with hzero | ⟨k', rfl, hfirst, hmore⟩
    · obtain rfl : k = 0 := Nat.lt_one_iff.1 hzero
      rw [row_of_some h.fails]
      rfl
    · rw [row_of_none (hfirst 0 Nat.one_pos), Nat.add_comm 1 k']
      rw [List.length_cons] at hk
      exact ih (by omega) hmore

end Recording

/-! ### Bodies -/

/-- Row `k` of a body is one of the batch `b`, which stands behind the batches `before`; `rest` is what
follows this batch. -/
structure Decoder.RowStands (d : Decoder) (body : List UInt8) (rows : List Row) (k : Nat)
    (before : List StoredBatch) (b : StoredBatch) (rest : List UInt8) : Prop where
  body_eq : body = before.flatMap StoredBatch.bytes ++ (b.bytes ++ rest)
  accepts : ∀ b' ∈ before, d.Accepts b'
  count_le : b.records.length ≤ d.capacity
  rows_eq : (before.flatMap StoredBatch.raws ++ d.known b.raws).map d.rowOf <+: rows
  le : (before.flatMap StoredBatch.raws).length ≤ k
  lt : k < (before.flatMap StoredBatch.raws ++ d.known b.raws).length

namespace Decoder.RowStands

variable {d : Decoder} {body rest : List UInt8} {rows : List Row} {k : Nat}
  {before : List StoredBatch} {b : StoredBatch}

theorem append (h : d.RowStands body rows k before b rest) (more : List Row) :
    d.RowStands body (rows ++ more) k before b rest :=
  { h with rows_eq := h.rows_eq.trans (List.prefix_append ..) }

/-- The same row, seen from one batch earlier. -/
theorem cons (h : d.RowStands body rows k before b rest) {first : StoredBatch}
    (hfirst : d.Accepts first) :
    d.RowStands (first.bytes ++ body) (first.raws.map d.rowOf ++ rows) (first.raws.length + k)
      (first :: before) b rest where
  body_eq := by rw [h.body_eq, List.flatMap_cons, List.append_assoc]
  accepts := List.forall_mem_cons.2 ⟨hfirst, h.accepts⟩
  count_le := h.count_le
  rows_eq := by
    rw [List.flatMap_cons, List.append_assoc, List.map_append]
    exact (List.prefix_append_right_inj _).2 h.rows_eq
  le := by
    rw [List.flatMap_cons, List.length_append]
    exact Nat.add_le_add_left h.le _
  lt := by
    rw [List.flatMap_cons, List.append_assoc, List.length_append]
    exact Nat.add_lt_add_left h.lt _

end Decoder.RowStands

namespace Standing

open Decoder

variable {d : Decoder} {faults : OutputFaults}

/-- The rows that a call for a batch writes if none of them fails. -/
def batchRows {σ : Type} (d : Decoder) (v : Standing σ) : List Row :=
  match (front d.capacity v.ending v.rest).1 with
  | .ok (some raws) => (d.rows 0 raws).1
  | _ => []

/-- The state of the output after a call for a batch. -/
theorem output_batch {σ : Type} {out : Output σ} (hout : out.NeverFails) (v : Standing σ) :
    (v.batch d out).2.output = out.calls ((v.batchRows d).map .row) v.output := by
  unfold batch batchRows
  split
  · simp [skip, *]
  · simp [skip, *]
  · rename_i raws taken hfront
    rw [hfront]
    dsimp only
    rw [writeRows_of_neverFails d hout]
    cases verdict (d.rows 0 raws).2 <;> rfl

theorem batch_of_spares {v : Standing Recording}
    (h : faults.Spares v.output.rows (v.batchRows d).length) :
    v.batch d (Recording.output faults) = v.batch d (Recording.output .none) := by
  unfold batch
  unfold batchRows at h
  split
  · rfl
  · rfl
  · rename_i raws taken hfront
    rw [hfront] at h
    rw [writeRows_eq, Recording.writeAll_of_spares h, writeRows_of_neverFails d Recording.neverFails]

/-- The batch of the first failing row is taken whole. -/
theorem batch_of_firstAt {v : Standing Recording} {k : Nat} {fault : Fault}
    (hk : k < (v.batchRows d).length) (h : faults.FirstAt v.output.rows k fault) :
    ∃ b rest, d.RowStands v.rest (v.batchRows d) k [] b rest ∧
      v.batch d (Recording.output faults) = (.error fault, { v with
        rest,
        output := (Recording.output .none).calls (((v.batchRows d).take (k + 1)).map .row)
          v.output }) := by
  unfold batch
  split
  · simp [batchRows, *] at hk
  · simp [batchRows, *] at hk
  · rename_i raws taken hfront
    obtain ⟨b, hcount, rfl, hrest⟩ := exists_batch_of_front (congrArg Prod.fst hfront)
    have hrows : v.batchRows d = (d.known b.raws).map d.rowOf := by
      rw [batchRows, hfront]
      exact congrArg Prod.fst (rows_eq d 0 b.raws)
    refine ⟨b, v.rest.drop taken, ⟨?_, by simp, hcount, ?_, Nat.zero_le k, ?_⟩, ?_⟩
    · rwa [hfront] at hrest
    · simp only [List.flatMap_nil, List.nil_append, hrows, List.prefix_rfl]
    · rwa [List.flatMap_nil, List.nil_append, ← List.length_map d.rowOf, ← hrows]
    · rw [hrows] at hk ⊢
      rw [writeRows_eq, rows_eq, Recording.writeAll_of_firstAt hk h]
      rfl

theorem batchRows_of_accepts {σ : Type} {v : Standing σ} {b : StoredBatch} (hb : d.Accepts b)
    {rest : List UInt8} (hrest : v.rest = b.bytes ++ rest) :
    v.batchRows d = b.raws.map d.rowOf := by
  rw [batchRows, hrest, front_bytes b hb.count_le]
  dsimp only
  rw [rows_eq, known_of_forall hb.known]

/-- Decoding ends with this fault at row `k` of `rows`. The stream is left behind the batch of the row. -/
def FailsAt (d : Decoder) (faults : OutputFaults) (v : Standing Recording) (rows : List Row) (k : Nat)
    (fault : Fault) : Prop :=
  ∃ before b rest, d.RowStands v.rest rows k before b rest ∧
    (v.all d (Recording.output faults)).1 = .error fault ∧
    (v.all d (Recording.output faults)).2.rest = rest ∧
    (v.all d (Recording.output faults)).2.output =
      (Recording.output .none).calls ((rows.take (k + 1)).map .row) v.output

/-- A row that fails in the first batch decides, whatever comes after this batch. -/
theorem failsAt_batchRows {v : Standing Recording} {k : Nat} {fault : Fault}
    (hk : k < (v.batchRows d).length) (h : faults.FirstAt v.output.rows k fault) :
    v.FailsAt d faults (v.batchRows d) k fault := by
  obtain ⟨b, rest, hstands, hbatch⟩ := batch_of_firstAt hk h
  refine ⟨[], b, rest, hstands, ?_⟩
  rw [all_of_error hbatch]
  exact ⟨rfl, rfl, rfl⟩

theorem FailsAt.append {v : Standing Recording} {rows : List Row} {k : Nat} {fault : Fault}
    (h : v.FailsAt d faults rows k fault) (hk : k < rows.length) (more : List Row) :
    v.FailsAt d faults (rows ++ more) k fault := by
  obtain ⟨before, b, rest, hstands, hall, hleft, hwritten⟩ := h
  refine ⟨before, b, rest, hstands.append more, hall, hleft, ?_⟩
  rw [hwritten, List.take_append_of_le_length (by omega)]

/-- Decoding to an output with faults, against the same decoding without them. -/
theorem all_with_faults (d : Decoder) (faults : OutputFaults) (v : Standing Recording) :
    ∃ rows, (v.all d (Recording.output .none)).2.output =
        (Recording.output .none).calls (rows.map .row) v.output ∧
      (faults.Spares v.output.rows rows.length →
        v.all d (Recording.output faults) = v.all d (Recording.output .none)) ∧
      ∀ k fault, k < rows.length → faults.FirstAt v.output.rows k fault →
        v.FailsAt d faults rows k fault := by
  fun_induction all d (Recording.output .none) v with
  | case1 v fault v' hbatch =>
    have hout := output_batch (d := d) Recording.neverFails v
    rw [hbatch] at hout
    refine ⟨v.batchRows d, hout, fun h => ?_, fun k fault => failsAt_batchRows⟩
    exact all_of_error ((batch_of_spares h).trans hbatch)
  | case2 v v' hbatch =>
    have hout := output_batch (d := d) Recording.neverFails v
    rw [hbatch] at hout
    refine ⟨v.batchRows d, hout, fun h => ?_, fun k fault => failsAt_batchRows⟩
    exact all_of_endOfTrace ((batch_of_spares h).trans hbatch)
  | case3 v count v' hbatch ih =>
    obtain ⟨b, hb, hrest⟩ := exists_of_batch_eq_decoded hbatch
    obtain ⟨more, hmore, hspared, hfirst⟩ := ih
    have hrows : v.batchRows d = b.raws.map d.rowOf := batchRows_of_accepts hb hrest
    have hout := output_batch (d := d) Recording.neverFails v
    rw [hbatch] at hout
    replace hout : v'.output = _ := hout
    have hcount : v'.output.rows = v.output.rows + (v.batchRows d).length := by
      rw [hout, Recording.rows_calls]
    refine ⟨v.batchRows d ++ more, ?_, fun h => ?_, fun k fault hk h => ?_⟩
    · rw [hmore, hout, List.map_append, Output.calls_append]
    · rw [List.length_append] at h
      obtain ⟨hthis, hnext⟩ := h.of_add
      rw [all_of_decoded ((batch_of_spares hthis).trans hbatch)]
      exact hspared (hcount ▸ hnext)
    · -- the first failing row is one of this batch, or this batch is decoded as if none failed
      rcases h.lt_or_skip (v.batchRows d).length with hin | ⟨k', rfl, hthis, hnext⟩
      · exact (failsAt_batchRows hin h).append hin more
      · rw [List.length_append] at hk
        obtain ⟨before, b', rest, hstands, hall, hleft, hwritten⟩ :=
          hfirst k' fault (by omega) (hcount ▸ hnext)
        refine ⟨b :: before, b', rest, ?_, ?_⟩
        · rw [hrest, hrows, List.length_map]
          exact hstands.cons hb
        · rw [all_of_decoded ((batch_of_spares hthis).trans hbatch)]
          refine ⟨hall, hleft, ?_⟩
          rw [hwritten, hout, Nat.add_assoc, List.take_length_add_append, List.map_append,
            Output.calls_append]

end Standing

/-! ### Conversions -/

/-- Behind the column names, the first row that fails decides; without one, the decoding and the flush
do. -/
theorem convert_of_title_spared {config : Config} {faults : OutputFaults} {source body : Source}
    {header : Header} (hread : Header.read config.maxObjects source = (.ok header, body))
    (htitle : faults.title = none) :
    let outcome := convert config (Recording.output faults) source .empty
    let spared := convert config (Recording.output .none) source .empty
    ∃ rows : List Row,
      spared.output.calls = (.title :: (rows.map .row ++ [.flush])).toArray ∧
      (∀ k fault, k < rows.length → faults.FirstAt 0 k fault →
        outcome.output.calls = (.title :: ((rows.take (k + 1)).map .row ++ [.flush])).toArray ∧
        outcome.result = .error fault ∧
        ∃ before b, (config.decoder header).RowStands body.rest rows k before b
          outcome.source.rest) ∧
      (faults.Spares 0 rows.length →
        outcome.output.calls = (.title :: (rows.map .row ++ [.flush])).toArray ∧
        outcome.result = match spared.result, faults.flush with
          | .error fault, _ => .error fault
          | .ok _, some fault => .error fault
          | .ok summary, none => .ok summary) := by
  intro outcome spared
  let s := (Recording.output .none).call .empty .title
  let v : Standing Recording := ⟨body.rest, body.ending, ⟨0, 0⟩, s⟩
  obtain ⟨hresult, -, hrest, houtput⟩ :=
    convert_of_title_ok hread (Recording.title_of_none htitle .empty)
  obtain ⟨hresult', -, -, houtput'⟩ :=
    convert_of_title_ok hread (@Recording.title_of_none .none rfl .empty)
  obtain ⟨rows, hrows, hsame, hfirst⟩ := v.all_with_faults (config.decoder header) faults
  have hflush (faults : OutputFaults) (s : Recording) : (Recording.output faults).flush s =
    (Recording.outcome faults.flush, (Recording.output .none).call s .flush) := rfl
  have hspared : spared.output.calls = (.title :: (rows.map .row ++ [.flush])).toArray := by
    rw [← Recording.calls_conversion, ← hrows]
    exact congrArg Recording.calls houtput'
  refine ⟨rows, hspared, fun k fault hk h => ?_, fun h => ?_⟩
  · obtain ⟨before, b, rest, hstands, hall, hleft, hwritten⟩ := hfirst k fault hk h
    refine ⟨?_, ?_, before, b, ?_⟩
    · rw [← Recording.calls_conversion, ← hwritten]
      exact congrArg Recording.calls houtput
    · rw [hresult, hall]
    · rw [hrest, hleft]
      exact hstands
  · have hall := hsame h
    refine ⟨?_, ?_⟩
    · rw [← hspared, houtput, houtput', hall]
      rfl
    · rw [hresult, hresult', hall, hflush, hflush]
      cases (v.all (config.decoder header) (Recording.output .none)).1 with
      | error fault => rfl
      | ok totals => cases faults.flush <;> rfl

/-- Conversion to an output that records its calls and fails those that `faults` tells it to, against
the conversion that is spared. No call is made if the header cannot be read, and none after the column
names if these fail. Otherwise the rows are called in order, up to and including the first that fails,
and then there is one flush. A fault of a row is reported whatever the flush does, and the stream is
then left where the batch of that row ends; a fault of the decoding is reported next, and that of the
flush last. -/
theorem convert_with_faults (config : Config) (faults : OutputFaults) (source : Source) :
    let outcome := convert config (Recording.output faults) source .empty
    let spared := convert config (Recording.output .none) source .empty
    (outcome.output.calls = #[] ↔
      ∃ fault body, Header.read config.maxObjects source = (.error fault, body)) ∧
    (outcome.output.calls = #[.title] ↔
      (∃ header body, Header.read config.maxObjects source = (.ok header, body)) ∧
        faults.title ≠ none) ∧
    ∀ header body, Header.read config.maxObjects source = (.ok header, body) → faults.title = none →
      ∃ rows : List Row,
        spared.output.calls = (.title :: (rows.map .row ++ [.flush])).toArray ∧
        (∀ k fault, k < rows.length → faults.row k = some fault → (∀ j < k, faults.row j = none) →
          outcome.output.calls = (.title :: ((rows.take (k + 1)).map .row ++ [.flush])).toArray ∧
          outcome.result = .error fault ∧
          ∃ before b, (config.decoder header).RowStands body.rest rows k before b
            outcome.source.rest) ∧
        ((∀ k < rows.length, faults.row k = none) →
          outcome.output.calls = (.title :: (rows.map .row ++ [.flush])).toArray ∧
          outcome.result = match spared.result, faults.flush with
            | .error fault, _ => .error fault
            | .ok _, some fault => .error fault
            | .ok summary, none => .ok summary) := by
  intro outcome spared
  cases hread : Header.read config.maxObjects source with
  | mk result body =>
    cases result with
    | error fault =>
      have houtcome : outcome = _ := convert_of_read_error hread _ _
      have hcalls : outcome.output.calls = #[] := by rw [houtcome]; rfl
      simp [hcalls]
    | ok header =>
      cases htitle : faults.title with
      | some fault =>
        have hcall : (Recording.output faults).title .empty = (Recording.outcome faults.title, _) := rfl
        rw [htitle] at hcall
        have houtcome : outcome = _ := convert_of_title_error hread hcall
        have hcalls : outcome.output.calls = #[.title] := by rw [houtcome]; rfl
        simp [hcalls]
      | none =>
        obtain ⟨rows, hspared, hfirst, hnone⟩ := convert_of_title_spared hread htitle
        have hcalls : ∃ called : List Row,
            outcome.output.calls = (.title :: (called.map .row ++ [.flush])).toArray := by
          rcases faults.spares_or_firstAt 0 rows.length with h | ⟨k, fault, hk, h⟩
          · exact ⟨rows, (hnone h).1⟩
          · exact ⟨rows.take (k + 1), (hfirst k fault hk h).1⟩
        obtain ⟨called, hcalls⟩ := hcalls
        refine ⟨?_, ?_, ?_⟩
        · simp [hcalls]
        · simp [hcalls]
        · rintro _ _ ⟨⟩ -
          refine ⟨rows, hspared, fun k fault hk hfails hbefore => ?_, fun h => ?_⟩
          · exact hfirst k fault hk ⟨by rwa [Nat.zero_add], fun j hj => by
              rw [Nat.zero_add]
              exact hbefore j hj⟩
          · exact hnone fun j hj => by
              rw [Nat.zero_add]
              exact h j hj

end ReactorTrace
