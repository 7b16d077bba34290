import ReactorTrace.Proofs.Outputs

/-! Conversions under wider limits. A limit is met where an object count, the length of a batch or an
event type is refused. Until then conversion goes the same way under any wider configuration, with any
output (`convert_lockstep`), and where a limit is met the wider configuration writes the same rows and
perhaps more (`convert_wider`). Whether the header is printed shows in what is printed and nowhere else. -/

namespace ReactorTrace

variable {α β σ : Type}

/-- The faults that a wider configuration may not have. -/
def Fault.isLimit : Fault → Bool
  | objectCount .. | longBatch .. | unknownEvent .. => true
  | _ => false

def meetsLimit : Except Fault α → Bool
  | .ok _ => false
  | .error fault => fault.isLimit

theorem meetsLimit_map (f : α → β) (result : Except Fault α) :
    meetsLimit (result.map f) = meetsLimit result := by
  cases result <;> rfl

/-! ### Headers -/

/-- Another step that goes the same way unless this one meets a limit. -/
def Reading.Widens (step wider : Reading α) : Prop :=
  ∀ s, wider s = step s ∨ meetsLimit (step s).1

namespace Reading.Widens

theorem refl (step : Reading α) : Widens step step := fun _ => .inl rfl

theorem fail {fault : Fault} (hfault : fault.isLimit) (wider : Reading α) :
    Widens (Reading.fail fault) wider := fun _ => .inr hfault

theorem bind {step wider : Reading α} {next next' : α → Reading β} (h : Widens step wider)
    (h' : ∀ a, Widens (next a) (next' a)) : Widens (step >>= next) (wider >>= next') := by
  intro s
  have hs := h s
  rw [bind_apply, bind_apply]
  cases hstep : step s with
  | mk result s' =>
    rw [hstep] at hs
    rcases hs with heq | hlimit
    · rw [heq]
      cases result with
      | error fault => exact .inl rfl
      | ok a => exact h' a s'
    · cases result with
      | error fault => exact .inr hlimit
      | ok a => cases hlimit

end Reading.Widens

namespace Header

open Reading

theorem readCount_widens {limit limit' : Nat} (h : limit ≤ limit') :
    Widens (readCount limit) (readCount limit') := by
  refine (Widens.refl _).bind fun bs => ?_
  dsimp only
  by_cases hcount : 0 ≤ LittleEndian.decodeInt32 bs ∧ (LittleEndian.decodeInt32 bs).toInt.toNat ≤ limit
  · rw [if_pos hcount, if_pos ⟨hcount.1, Nat.le_trans hcount.2 h⟩]
    exact .refl _
  · rw [if_neg hcount]
    exact .fail rfl _

theorem read_widens {limit limit' : Nat} (h : limit ≤ limit') : Widens (read limit) (read limit') :=
  (Widens.refl _).bind fun _ => (readCount_widens h).bind fun _ => .refl _

end Header

/-! ### What is written -/

/-- Some rows, and nothing else, are written between the two states. -/
def Output.Continues (out : Output σ) (s s' : σ) : Prop :=
  ∃ rows : List Row, s' = out.calls (rows.map .row) s

namespace Output.Continues

variable {out : Output σ} {s s' s'' : σ}

theorem refl (s : σ) : out.Continues s s := ⟨[], rfl⟩

theorem trans (h : out.Continues s s') (h' : out.Continues s' s'') : out.Continues s s'' := by
  obtain ⟨rows, rfl⟩ := h
  obtain ⟨more, rfl⟩ := h'
  exact ⟨rows ++ more, by rw [List.map_append, calls_append]⟩

end Output.Continues

namespace Decoder

theorem continues_writeRows (d : Decoder) (out : Output σ) (index : Nat) (raws : List RawRecord)
    (s : σ) : out.Continues s (d.writeRows out index raws s).2 := by
  fun_induction writeRows d out index raws s with
  | case1 index s => exact .refl s
  | case2 index raw raws s fault hrow => exact .refl s
  | case3 index raw raws s r hrow fault s' hout => exact ⟨[r], (congrArg Prod.snd hout).symm⟩
  | case4 index raw raws s r hrow s' hout ih =>
    have hr : out.Continues s s' := ⟨[r], (congrArg Prod.snd hout).symm⟩
    exact hr.trans ih

/-- Nothing is written before a batch is in the buffer. -/
theorem output_load (capacity : Nat) (st : Decoding σ) : (load capacity st).2.output = st.output := by
  obtain ⟨source, buffer, hload, -⟩ := load_apply capacity st
  rw [hload]

theorem batch_of_load {d : Decoder} {st st' : Decoding σ} {count : Nat}
    (h : load d.capacity st = (.ok (some count), st')) (out : Output σ) :
    let written := d.writeRows out 0 (records st'.buffer) st'.output
    d.batch out st = (written.1.map fun _ => .decoded count, { st' with
      output := written.2
      totals := match written.1 with
        | .ok _ => st'.totals.addBatch count
        | .error _ => st'.totals }) := by
  rw [batch, h]
  dsimp only
  rcases d.writeRows out 0 (records st'.buffer) st'.output with ⟨fault | _, s'⟩
  · rfl
  · rfl

theorem continues_batch (d : Decoder) (out : Output σ) (st : Decoding σ) :
    out.Continues st.output (d.batch out st).2.output := by
  have hload := output_load d.capacity st
  cases hfound : load d.capacity st with
  | mk found st' =>
    rw [hfound] at hload
    replace hload : st'.output = st.output := hload
    rw [← hload]
    rcases found with fault | _ | count
    · rw [batch, hfound]
      exact .refl _
    · rw [batch, hfound]
      exact .refl _
    · rw [batch_of_load hfound]
      exact d.continues_writeRows out 0 (records st'.buffer) st'.output

theorem continues_all (d : Decoder) (out : Output σ) (st : Decoding σ) :
    out.Continues st.output (d.all out st).2.output := by
  fun_induction all d out st with
  | case1 st fault st' hbatch => exact congrArg Prod.snd hbatch ▸ d.continues_batch out st
  | case2 st st' hbatch => exact congrArg Prod.snd hbatch ▸ d.continues_batch out st
  | case3 st count st' hbatch ih =>
    have hrows := d.continues_batch out st
    rw [hbatch] at hrows
    exact hrows.trans ih

theorem continues_all_of_batch (d : Decoder) (out : Output σ) (st : Decoding σ) :
    out.Continues (d.batch out st).2.output (d.all out st).2.output := by
  rw [all_eq]
  rcases d.batch out st with ⟨fault | count | _, st'⟩
  · exact .refl _
  · exact d.continues_all out st'
  · exact .refl _

end Decoder

/-! ### Bodies -/

/-- More names do not change those that are there. -/
theorem EventNames.get?_of_prefix {table wider : EventNames} (h : table.names <+: wider.names)
    {eventType : Int32} {name : String} (hname : table.get? eventType = some name) :
    wider.get? eventType = some name := by
  obtain ⟨more, hmore⟩ := h
  unfold get? at hname ⊢
  split at hname
  · cases hname
  · rename_i hneg
    obtain ⟨hlt, -⟩ := List.getElem?_eq_some_iff.1 hname
    rw [if_neg hneg, ← hmore, List.getElem?_append_left hlt, hname]

namespace Decoder

variable {d wider : Decoder}

/-- The same header, and limits that are as wide or wider. -/
structure Within (d wider : Decoder) : Prop where
  header_eq : d.header = wider.header
  names_prefix : d.eventNames.names <+: wider.eventNames.names
  capacity_le : d.capacity ≤ wider.capacity

theorem checkLength_wider {capacity capacity' : Nat} (h : capacity ≤ capacity') (length : Int32) :
    checkLength capacity' length = checkLength capacity length ∨
      meetsLimit (checkLength capacity length) := by
  unfold checkLength
  by_cases hneg : length < 0
  · rw [if_pos hneg, if_pos hneg]
    exact .inl rfl
  · rw [if_neg hneg, if_neg hneg]
    by_cases hlong : capacity < length.toInt.toNat
    · rw [if_pos hlong]
      exact .inr rfl
    · rw [if_neg hlong, if_neg fun h' => hlong (Nat.lt_of_le_of_lt h h')]
      exact .inl rfl

theorem readLength_widens {capacity capacity' : Nat} (h : capacity ≤ capacity') :
    (readLength capacity).Widens (readLength capacity') := by
  refine (Reading.Widens.refl _).bind fun bs => ?_
  split
  · exact .refl _
  · split
    · exact .refl _
    · rcases checkLength_wider h (LittleEndian.decodeInt32 bs) with heq | hlimit
      · rw [heq]
        exact .refl _
      · cases hc : checkLength capacity (LittleEndian.decodeInt32 bs) with
        | ok n =>
          rw [hc] at hlimit
          cases hlimit
        | error fault =>
          rw [hc] at hlimit
          exact .fail hlimit _

theorem load_wider {capacity capacity' : Nat} (h : capacity ≤ capacity') (st : Decoding σ) :
    load capacity' st = load capacity st ∨ meetsLimit (load capacity st).1 := by
  have hlength := readLength_widens h st.source
  unfold load
  cases hread : readLength capacity st.source with
  | mk found source =>
    rw [hread] at hlength
    rcases hlength with heq | hlimit
    · rw [heq]
      exact .inl rfl
    · cases found with
      | error fault => exact .inr hlimit
      | ok found => cases hlimit

/-- A record whose event type is unknown ends the rows, unless the wider table knows it. -/
theorem row_wider (h : d.Within wider) (index : Nat) (raw : RawRecord) :
    wider.row index raw = d.row index raw ∨ meetsLimit (d.row index raw) := by
  unfold row
  dsimp only
  cases hname : d.eventNames.get? (Record.ofRaw raw).eventType with
  | none => exact .inr rfl
  | some event =>
    rw [EventNames.get?_of_prefix h.names_prefix hname, h.header_eq]
    exact .inl rfl

theorem writeRows_wider (h : d.Within wider) (out : Output σ) (index : Nat) (raws : List RawRecord)
    (s : σ) :
    wider.writeRows out index raws s = d.writeRows out index raws s ∨
      meetsLimit (d.writeRows out index raws s).1 ∧
        out.Continues (d.writeRows out index raws s).2 (wider.writeRows out index raws s).2 := by
  induction raws generalizing index s with
  | nil => exact .inl rfl
  | cons raw raws ih =>
    have hrow := row_wider h index raw
    have hrows := wider.continues_writeRows out index (raw :: raws) s
    unfold writeRows at hrows ⊢
    cases hr : d.row index raw with
    | error fault =>
      rw [hr] at hrow
      rcases hrow with heq | hlimit
      · rw [heq]
        exact .inl rfl
      · exact .inr ⟨hlimit, hrows⟩
    | ok r =>
      rw [hr] at hrow
      rcases hrow with heq | hlimit
      · rw [heq]
        dsimp only
        rcases out.row r s with ⟨fault | _, s'⟩
        · exact .inl rfl
        · exact ih (index + 1) s'
      · cases hlimit

theorem batch_wider (h : d.Within wider) (out : Output σ) (st : Decoding σ) :
    wider.batch out st = d.batch out st ∨
      meetsLimit (d.batch out st).1 ∧
        out.Continues (d.batch out st).2.output (wider.batch out st).2.output := by
  have hload := load_wider h.capacity_le st
  have houtput := output_load d.capacity st
  cases hfound : load d.capacity st with
  | mk found st' =>
    rw [hfound] at hload houtput
    rcases found with fault | _ | count
    · rcases hload with heq | hlimit
      · rw [batch, batch, heq, hfound]
        exact .inl rfl
      · have hbatch : d.batch out st = (.error fault, st') := by rw [batch, hfound]
        rw [hbatch]
        exact .inr ⟨hlimit, houtput ▸ wider.continues_batch out st⟩
    · obtain heq := hload.resolve_right Bool.false_ne_true
      rw [batch, batch, heq, hfound]
      exact .inl rfl
    · obtain heq := hload.resolve_right Bool.false_ne_true
      rw [batch_of_load hfound, batch_of_load heq]
      rcases writeRows_wider h out 0 (records st'.buffer) st'.output with heq | ⟨hlimit, hrows⟩
      · rw [heq]
        exact .inl rfl
      · exact .inr ⟨(meetsLimit_map _ _).trans hlimit, hrows⟩

theorem all_wider (h : d.Within wider) (out : Output σ) (st : Decoding σ) :
    wider.all out st = d.all out st ∨
      meetsLimit (d.all out st).1 ∧
        out.Continues (d.all out st).2.output (wider.all out st).2.output := by
  -- a limit that the first batch meets ends this decoding, while the wider one may go on behind the batch
  fun_induction all d out st with
  | case1 st fault st' hbatch =>
    have hwider := batch_wider h out st
    have hbehind := wider.continues_all_of_batch out st
    rw [hbatch] at hwider
    rcases hwider with heq | ⟨hlimit, hrows⟩
    · rw [all_eq, heq]
      exact .inl rfl
    · exact .inr ⟨hlimit, hrows.trans hbehind⟩
  | case2 st st' hbatch =>
    have hwider := batch_wider h out st
    rw [hbatch] at hwider
    rcases hwider with heq | ⟨hlimit, -⟩
    · rw [all_eq, heq]
      exact .inl rfl
    · cases hlimit
  | case3 st count st' hbatch ih =>
    have hwider := batch_wider h out st
    rw [hbatch] at hwider
    rcases hwider with heq | ⟨hlimit, -⟩
    · rw [all_eq, heq]
      exact ih
    · cases hlimit

end Decoder

/-! ### Conversions -/

/-- The row of a call that writes one. -/
def OutputCall.row? : OutputCall → Option Row
  | row r => some r
  | title | flush => none

theorem OutputCall.filterMap_row? (rows : List Row) :
    List.filterMap OutputCall.row? (.title :: (rows.map .row ++ [.flush])) = rows := by
  have hrow : row? ∘ row = some := rfl
  rw [List.filterMap_cons_none rfl, List.filterMap_append, List.filterMap_map, hrow,
    List.filterMap_some]
  exact List.append_nil rows

namespace Config

/-- The rows that a conversion writes. -/
def rows (config : Config) (source : Source) : List Row :=
  (config.calls source).filterMap OutputCall.row?

/-- All limits of the other configuration are as wide or wider, and its names begin with those of this
one. -/
structure Within (config wider : Config) : Prop where
  batchCapacity_le : config.batchCapacity ≤ wider.batchCapacity
  maxObjects_le : config.maxObjects ≤ wider.maxObjects
  names_prefix : config.eventNames.names <+: wider.eventNames.names
  dump_eq : config.dump = wider.dump

theorem Within.decoder {config wider : Config} (h : config.Within wider) (header : Header) :
    (config.decoder header).Within (wider.decoder header) :=
  ⟨rfl, h.names_prefix, h.batchCapacity_le⟩

end Config

/-- The flush is made in any case. -/
theorem output_convertBody (d : Decoder) (out : Output σ) (source : Source) (s : σ) :
    (convertBody d out source s).2.output = out.call (d.all out (.start source s)).2.output .flush := by
  unfold convertBody
  rcases d.all out (.start source s) with ⟨fault | totals, st⟩
  · rfl
  · rfl

theorem convertBody_wider {d wider : Decoder} (h : d.Within wider) (out : Output σ) (source : Source)
    (s : σ) :
    convertBody wider out source s = convertBody d out source s ∨
      meetsLimit (convertBody d out source s).1 ∧
        ∃ rows more : List Row,
          (convertBody d out source s).2.output = out.calls (rows.map .row ++ [.flush]) s ∧
          (convertBody wider out source s).2.output =
            out.calls ((rows ++ more).map .row ++ [.flush]) s := by
  obtain ⟨rows, hrows⟩ := d.continues_all out (.start source s)
  rcases Decoder.all_wider h out (.start source s) with heq | ⟨hlimit, more, hmore⟩
  · rw [convertBody, convertBody, heq, h.header_eq]
    exact .inl rfl
  · refine .inr ⟨?_, rows, more, ?_, ?_⟩
    · unfold convertBody
      cases hall : d.all out (.start source s) with
      | mk result st =>
        rw [hall] at hlimit
        cases result with
        | error fault => exact hlimit
        | ok totals => cases hlimit
    · rw [output_convertBody, hrows]
      exact out.call_calls ..
    · rw [output_convertBody, hmore, hrows, ← Output.calls_append, ← List.map_append]
      exact out.call_calls ..

/-- Two conversions to one output, whether its calls fail or not: they are the same, or the first one
meets a limit, in the header or behind some rows that the second one writes too. -/
theorem convert_lockstep {config wider : Config} (h : config.Within wider) (out : Output σ)
    (source : Source) (s : σ) :
    convert wider out source s = convert config out source s ∨
      meetsLimit (convert config out source s).result ∧
        ((convert config out source s).output = s ∨
          ∃ rows more : List Row,
            (convert config out source s).output =
              out.calls (.title :: (rows.map .row ++ [.flush])) s ∧
            (convert wider out source s).output =
              out.calls (.title :: ((rows ++ more).map .row ++ [.flush])) s) := by
  have hheader := Header.read_widens h.maxObjects_le source
  cases hread : Header.read config.maxObjects source with
  | mk result body =>
    rw [hread] at hheader
    cases result with
    | error fault =>
      rw [convert_of_read_error hread]
      rcases hheader with heq | hlimit
      · exact .inl (convert_of_read_error heq out s)
      · exact .inr ⟨hlimit, .inl rfl⟩
    | ok header =>
      have heq := hheader.resolve_right Bool.false_ne_true
      cases htitle : out.title s with
      | mk result s' =>
        cases result with
        | error fault =>
          rw [convert_of_title_error hread htitle, convert_of_title_error heq htitle, h.dump_eq]
          exact .inl rfl
        | ok _ =>
          have hcall : s' = out.call s .title := (congrArg Prod.snd htitle).symm
          rw [convert_eq_body hread htitle, convert_eq_body heq htitle, h.dump_eq]
          rcases convertBody_wider (h.decoder header) out body s' with
            hbody | ⟨hlimit, rows, more, hrows, hmore⟩
          · rw [hbody]
            exact .inl rfl
          · rw [hcall] at hrows hmore
            rw [hcall] at hlimit ⊢
            exact .inr ⟨hlimit, .inr ⟨rows, more, hrows, hmore⟩⟩

/-- The dump shows in what is printed and nowhere else. -/
theorem convert_dump (config : Config) (out : Output σ) (source : Source) (s : σ) (dump : Bool) :
    ∃ printed, convert { config with dump } out source s =
      { convert config out source s with printed } := by
  unfold convert
  dsimp only
  rcases Header.read config.maxObjects source with ⟨fault | header, body⟩
  · exact ⟨_, rfl⟩
  · dsimp only
    rcases out.title s with ⟨fault | _, s'⟩
    · exact ⟨_, rfl⟩
    · exact ⟨_, rfl⟩

/-- Every row is also written under wider limits, and in the same place. -/
theorem Config.rows_prefix {config wider : Config} (h : config.Within wider) (source : Source) :
    config.rows source <+: wider.rows source := by
  rcases convert_lockstep h (Recording.output .none) source .empty with
    heq | ⟨-, hempty | ⟨rows, more, hrows, hmore⟩⟩
  · have hsame : wider.rows source = config.rows source := by rw [rows, rows, calls, calls, heq]
    exact hsame ▸ List.prefix_rfl
  · have hcalls : config.calls source = [] := calls_eq hempty
    rw [rows, hcalls]
    exact List.nil_prefix
  · rw [Config.rows, Config.rows, calls_eq hrows, calls_eq hmore, OutputCall.filterMap_row?,
      OutputCall.filterMap_row?]
    exact List.prefix_append ..

/-- Conversions under a configuration and a wider one, to an output that never fails. Limits only refuse:
without such a fault both conversions are the same in all respects, and with one the rows written are the
first of those that the wider configuration gives. The dump flag decides what is printed and nothing
else. -/
theorem convert_wider {config wider : Config} (h : config.Within wider) {out : Output σ}
    (hout : out.NeverFails) (source : Source) (s : σ) :
    let outcome := convert config out source s
    let outcome' := convert wider out source s
    outcome.output = out.calls (config.calls source) s ∧
      outcome'.output = out.calls (wider.calls source) s ∧
      (meetsLimit outcome.result = false →
        outcome' = outcome ∧ wider.calls source = config.calls source) ∧
      (meetsLimit outcome.result → config.rows source <+: wider.rows source) ∧
      ∀ dump, ∃ printed, convert { config with dump } out source s = { outcome with printed } := by
  intro outcome outcome'
  obtain ⟨hresult, -, -, houtput⟩ := convert_calls hout config source s
  obtain ⟨-, -, -, houtput'⟩ := convert_calls hout wider source s
  refine ⟨houtput, houtput', fun hfree => ⟨?_, ?_⟩, fun _ => Config.rows_prefix h source,
    convert_dump config out source s⟩
  · rcases convert_lockstep h out source s with heq | ⟨hlimit, -⟩
    · exact heq
    · exact absurd hlimit (by rw [hfree]; exact Bool.false_ne_true)
  · rcases convert_lockstep h (Recording.output .none) source .empty with heq | ⟨hlimit, -⟩
    · rw [Config.calls, heq, Config.calls]
    · rw [← hresult, hfree] at hlimit
      cases hlimit

/-- A batch of one record and a batch of two. With room for one, the second batch is refused, behind the
row of the first one. -/
theorem convert_wider_second_batch :
    let narrow : Config := { Config.standard with batchCapacity := 1 }
    let first : List UInt8 := List.replicate 12 0 ++ ([1, 0, 0, 0] ++ List.replicate 48 0)
    let second : List UInt8 := [2, 0, 0, 0] ++ List.replicate 96 0
    let source := Source.ofBytes (first ++ second) .endOfFile .prompt
    let outcome := fun config => convert config (Recording.output .none) source .empty
    narrow.Within .standard ∧ (Recording.output .none).NeverFails ∧
      (outcome .standard).result = .ok ⟨0, 0, 2, 3⟩ ∧
      (outcome narrow).result = .error (.longBatch 2 1) ∧ (narrow.rows source).length = 1 ∧
      narrow.rows source <+: Config.standard.rows source := by
  intro narrow first second source outcome
  let r : StoredRecord := ⟨List.replicate 48 0, rfl⟩
  let one : StoredTrace := ⟨⟨0, [], by decide⟩, [⟨[r], by decide⟩]⟩
  let both : StoredTrace := ⟨⟨0, [], by decide⟩, [⟨[r], by decide⟩, ⟨[r, r], by decide⟩]⟩
  have hwithin : narrow.Within .standard := ⟨by decide, Nat.le_refl _, List.prefix_rfl, rfl⟩
  have hknown : Config.standard.eventNames.Knows r.record.eventType := by decide
  have hone : one.Accepted narrow := ⟨by decide, by simp [one, narrow], by simpa [one] using hknown⟩
  have hboth : both.Accepted .standard :=
    ⟨by decide, by simp [both, Config.standard, Decoder.standardCapacity],
      by simpa [both] using hknown⟩
  have hresult : (outcome .standard).result = .ok ⟨0, 0, 2, 3⟩ := by
    have hbytes : first ++ second = both.bytes := by decide +kernel
    dsimp only [outcome, source]
    rw [hbytes]
    exact (convert_stored Recording.neverFails hboth .prompt .empty).1
  have hsource : source.rest = one.bytes ++ second := by
    have hbytes : first = one.bytes := by decide
    rw [← hbytes]
    rfl
  have hbatch (totals : Totals) (s : Recording) :
      Standing.batch (one.decoder narrow) (Recording.output .none) ⟨second, .endOfFile, totals, s⟩ =
        (.error (.longBatch 2 1), ⟨List.replicate 96 0, .endOfFile, totals, s⟩) := rfl
  obtain ⟨hlong, -, hwritten⟩ := convert_behind Recording.neverFails hone hsource .empty
  rw [show source.ending = .endOfFile from rfl, Standing.all_of_error (hbatch _ _)] at hlong hwritten
  have hcalls : narrow.calls source = .title :: ((one.rows narrow).map .row ++ [.flush]) :=
    Config.calls_eq (hwritten.trans (Output.call_calls ..))
  have hrows : narrow.rows source = one.rows narrow := by
    rw [Config.rows, hcalls, OutputCall.filterMap_row?]
  obtain ⟨-, -, -, hlimit, -⟩ := convert_wider hwithin Recording.neverFails source .empty
  exact ⟨hwithin, Recording.neverFails, hresult, hlong, congrArg List.length hrows,
    hlimit (congrArg meetsLimit hlong)⟩

end ReactorTrace
