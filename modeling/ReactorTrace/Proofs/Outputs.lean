import ReactorTrace.Proofs.OutputFaults

/-! Conversions of one trace to different outputs. Two outputs match when their calls have the same
results and keep their states related; then decoding and converting go the same way with both
(`Standing.Alongside.all`, `convert_matches`). An output that never fails matches one that records its
calls, so that it gets the calls that a conversion makes by itself (`convert_calls`). -/

namespace ReactorTrace

variable {σ σ' : Type}

/-- The totals of what is decoded behind a body with these totals. -/
def Totals.add (totals more : Totals) : Totals :=
  ⟨totals.batches + more.batches, totals.records + more.records⟩

theorem Totals.add_addBatch (totals more : Totals) (count : Nat) :
    totals.add (more.addBatch count) = (totals.add more).addBatch count := by
  simp only [add, addBatch, Nat.add_assoc]

theorem Totals.zero_add (totals : Totals) : add ⟨0, 0⟩ totals = totals := by
  simp only [add, Nat.zero_add]

namespace Output

/-- The same result, and states that are related. -/
def Agree {α : Type} (R : σ → σ' → Prop) (x : Except Fault α × σ) (x' : Except Fault α × σ') : Prop :=
  ∃ result s s', x = (result, s) ∧ x' = (result, s') ∧ R s s'

/-- Calls on these outputs agree as long as their states are related. -/
structure Matches (out : Output σ) (out' : Output σ') (R : σ → σ' → Prop) : Prop where
  title : ∀ s s', R s s' → Agree R (out.title s) (out'.title s')
  row : ∀ r s s', R s s' → Agree R (out.row r s) (out'.row r s')
  flush : ∀ s s', R s s' → Agree R (out.flush s) (out'.flush s')

variable {out : Output σ} {out' : Output σ'} {R : σ → σ' → Prop}

theorem Matches.writeRows (h : out.Matches out' R) (d : Decoder) (index : Nat)
    (raws : List RawRecord) {s : σ} {s' : σ'} (hs : R s s') :
    Agree R (d.writeRows out index raws s) (d.writeRows out' index raws s') := by
  induction raws generalizing index s s' with
  | nil => exact ⟨_, s, s', rfl, rfl, hs⟩
  | cons raw raws ih =>
    unfold Decoder.writeRows
    cases d.row index raw with
    | error fault => exact ⟨_, s, s', rfl, rfl, hs⟩
    | ok r =>
      obtain ⟨result, t, t', hrow, hrow', ht⟩ := h.row r s s' hs
      dsimp only
      rw [hrow, hrow']
      cases result with
      | error fault => exact ⟨_, t, t', rfl, rfl, ht⟩
      | ok _ => exact ih (index + 1) ht

theorem call_calls_push (out : Output σ) (cs : Array OutputCall) (c : OutputCall) (s : σ) :
    out.call (out.calls cs.toList s) c = out.calls (cs.push c).toList s := by
  rw [Array.toList_push]
  exact out.call_calls cs.toList c s

/-- An output that never fails matches one that records its calls: its state is always that after the
calls recorded so far. -/
theorem NeverFails.matches_recording (h : out.NeverFails) (s : σ) :
    out.Matches (Recording.output .none) fun t record => t = out.calls record.calls.toList s where
  title := by
    rintro _ record rfl
    exact ⟨.ok (), _, _, Prod.ext (h.title _) rfl, rfl, out.call_calls_push record.calls .title s⟩
  row := by
    rintro r _ record rfl
    exact ⟨.ok (), _, _, Prod.ext (h.row r _) rfl, rfl, out.call_calls_push record.calls (.row r) s⟩
  flush := by
    rintro _ record rfl
    exact ⟨.ok (), _, _, Prod.ext (h.flush _) rfl, rfl, out.call_calls_push record.calls .flush s⟩

end Output

namespace Standing

open Output

variable {out : Output σ} {out' : Output σ'} {R : σ → σ' → Prop} {base : Totals} {v : Standing σ}
  {v' : Standing σ'}

/-- The same bytes are left, the outputs have related states, and the totals of one decoding are those of
the other behind some batches. -/
structure Alongside (base : Totals) (R : σ → σ' → Prop) (v : Standing σ) (v' : Standing σ') : Prop where
  rest_eq : v.rest = v'.rest
  ending_eq : v.ending = v'.ending
  totals_eq : v.totals = base.add v'.totals
  related : R v.output v'.output

namespace Alongside

theorem skip (h : Alongside base R v v') (taken : Nat) :
    Alongside base R (v.skip taken) (v'.skip taken) :=
  { h with rest_eq := congrArg (List.drop taken) h.rest_eq }

theorem batch (h : Alongside base R v v') (hout : out.Matches out' R) (d : Decoder) :
    Agree (Alongside base R) (v.batch d out) (v'.batch d out') := by
  unfold Standing.batch
  rw [h.rest_eq, h.ending_eq]
  obtain ⟨found, taken⟩ := Decoder.front d.capacity v'.ending v'.rest
  rcases found with fault | _ | raws
  · exact ⟨_, _, _, rfl, rfl, h.skip taken⟩
  · exact ⟨_, _, _, rfl, rfl, h.skip taken⟩
  · obtain ⟨result, s, s', hwrite, hwrite', hs⟩ := hout.writeRows d 0 raws h.related
    dsimp only
    rw [hwrite, hwrite']
    cases result with
    | error fault => exact ⟨_, _, _, rfl, rfl, { h.skip taken with related := hs }⟩
    | ok _ =>
      refine ⟨_, _, _, rfl, rfl, { h.skip taken with totals_eq := ?_, related := hs }⟩
      dsimp only
      rw [h.totals_eq, Totals.add_addBatch]

/-- Decoding goes the same way with both outputs. -/
theorem all (h : Alongside base R v v') (hout : out.Matches out' R) (d : Decoder) :
    (v.all d out).1 = (v'.all d out').1.map base.add ∧
      Alongside base R (v.all d out).2 (v'.all d out').2 := by
  fun_induction Standing.all d out v generalizing v' with
  | case1 v fault w hbatch =>
    obtain ⟨result, _, w', hthis, hother, hw⟩ := h.batch hout d
    obtain ⟨rfl, rfl⟩ := Prod.mk.inj (hbatch.symm.trans hthis)
    rw [all_of_error hother]
    exact ⟨rfl, hw⟩
  | case2 v w hbatch =>
    obtain ⟨result, _, w', hthis, hother, hw⟩ := h.batch hout d
    obtain ⟨rfl, rfl⟩ := Prod.mk.inj (hbatch.symm.trans hthis)
    rw [all_of_endOfTrace hother]
    exact ⟨congrArg Except.ok hw.totals_eq, hw⟩
  | case3 v count w hbatch ih =>
    obtain ⟨result, _, w', hthis, hother, hw⟩ := h.batch hout d
    obtain ⟨rfl, rfl⟩ := Prod.mk.inj (hbatch.symm.trans hthis)
    rw [all_of_decoded hother]
    exact ih hw

end Alongside

end Standing

/-- Conversions of one stream to outputs that match. -/
theorem convert_matches {out : Output σ} {out' : Output σ'} {R : σ → σ' → Prop}
    (h : out.Matches out' R) (config : Config) (source : Source) {s : σ} {s' : σ'} (hs : R s s') :
    let outcome := convert config out source s
    let outcome' := convert config out' source s'
    outcome.result = outcome'.result ∧ outcome.printed = outcome'.printed ∧
      outcome.source.rest = outcome'.source.rest ∧ R outcome.output outcome'.output := by
  cases hread : Header.read config.maxObjects source with
  | mk result body =>
    cases result with
    | error fault =>
      rw [convert_of_read_error hread, convert_of_read_error hread]
      exact ⟨rfl, rfl, rfl, hs⟩
    | ok header =>
      obtain ⟨result, t, t', htitle, htitle', ht⟩ := h.title s s' hs
      cases result with
      | error fault =>
        rw [convert_of_title_error hread htitle, convert_of_title_error hread htitle']
        exact ⟨rfl, rfl, rfl, ht⟩
      | ok _ =>
        obtain ⟨hresult, hprinted, hrest, houtput⟩ := convert_of_title_ok hread htitle
        obtain ⟨hresult', hprinted', hrest', houtput'⟩ := convert_of_title_ok hread htitle'
        have hstart : Standing.Alongside ⟨0, 0⟩ R ⟨body.rest, body.ending, ⟨0, 0⟩, t⟩
            ⟨body.rest, body.ending, ⟨0, 0⟩, t'⟩ := ⟨rfl, rfl, rfl, ht⟩
        obtain ⟨hall, hbehind⟩ := hstart.all h (config.decoder header)
        obtain ⟨result, u, u', hflush, hflush', hu⟩ := h.flush _ _ hbehind.related
        refine ⟨?_, hprinted.trans hprinted'.symm, ?_, ?_⟩
        · rw [hresult, hresult', hall, hflush, hflush']
          cases (Standing.all (config.decoder header) out' _).1 with
          | error fault => rfl
          | ok totals =>
            dsimp only [Except.map]
            rw [Totals.zero_add]
        · rw [hrest, hrest', hbehind.rest_eq]
        · rw [houtput, houtput', hflush, hflush']
          exact hu

/-- The calls that a conversion makes, one after the other, on an output that never fails. -/
def Config.calls (config : Config) (source : Source) : List OutputCall :=
  (convert config (Recording.output .none) source .empty).output.calls.toList

theorem Config.calls_eq {config : Config} {source : Source} {cs : List OutputCall}
    (h : (convert config (Recording.output .none) source .empty).output =
      (Recording.output .none).calls cs .empty) : config.calls source = cs := by
  rw [calls, h, Recording.calls_output]
  exact congrArg Array.toList Array.empty_append

theorem Config.calls_of_read_error {config : Config} {source body : Source} {fault : Fault}
    (h : Header.read config.maxObjects source = (.error fault, body)) : config.calls source = [] := by
  rw [calls, convert_of_read_error h]
  rfl

/-- Behind a header the rows are between the column names and one flush. -/
theorem Config.exists_calls_of_read_ok {config : Config} {source body : Source} {header : Header}
    (h : Header.read config.maxObjects source = (.ok header, body)) :
    ∃ rows : List Row, config.calls source = .title :: (rows.map .row ++ [.flush]) := by
  obtain ⟨rows, hcalls, -⟩ := @convert_of_title_spared config .none source body header h rfl
  exact ⟨rows, by rw [calls, hcalls, List.toList_toArray]⟩

/-- An output that never fails gets these calls. -/
theorem convert_calls {out : Output σ} (hout : out.NeverFails) (config : Config) (source : Source)
    (s : σ) :
    let outcome := convert config out source s
    let recorded := convert config (Recording.output .none) source .empty
    outcome.result = recorded.result ∧ outcome.printed = recorded.printed ∧
      outcome.source.rest = recorded.source.rest ∧
      outcome.output = out.calls (config.calls source) s :=
  convert_matches (hout.matches_recording s) config source rfl

end ReactorTrace
