import ReactorTrace.Proofs.Acceptance

/-! Traces that are cut off. Any number of bytes off the front of an accepted trace falls within one
read of its header, or it takes in the header and some batches and breaks off within the next batch
(`exists_cut`). Conversion of these bytes takes all of them and says what is missing, and it has written
the rows of the batches that are there whole (`convert_truncated`). -/

namespace ReactorTrace

variable {σ : Type}

/-- A cut through a body leaves some batches whole and cuts the next one short of its end. -/
theorem exists_cut {batches : List StoredBatch} {n : Nat}
    (hn : n < (batches.flatMap StoredBatch.bytes).length) :
    ∃ whole b after part, batches = whole ++ b :: after ∧
      (batches.flatMap StoredBatch.bytes).take n = whole.flatMap StoredBatch.bytes ++ part ∧
      part <+: b.bytes ∧ part.length < b.bytes.length := by
  induction batches generalizing n with
  | nil => simp at hn
  | cons b batches ih =>
    rw [List.flatMap_cons] at hn ⊢
    by_cases hin : n < b.bytes.length
    · refine ⟨[], b, batches, b.bytes.take n, rfl, ?_, List.take_prefix .., ?_⟩
      · exact List.take_append_of_le_length (Nat.le_of_lt hin)
      · rw [List.length_take]
        omega
    · rw [List.length_append] at hn
      obtain ⟨whole, b', after, part, rfl, htake, hpart, hlt⟩ :=
        ih (n := n - b.bytes.length) (by omega)
      refine ⟨b :: whole, b', after, part, rfl, ?_, hpart, hlt⟩
      rw [List.take_append, List.take_of_length_le (by omega), htake, List.flatMap_cons,
        List.append_assoc]

namespace StoredTrace

/-- The batches of an accepted trace may be left out from any of them on. -/
theorem Accepted.of_append {config : Config} {header : StoredHeader} {whole after : List StoredBatch}
    (h : Accepted config ⟨header, whole ++ after⟩) : Accepted config ⟨header, whole⟩ where
  objects_le := h.objects_le
  counts_le b hb := h.counts_le b (List.mem_append_left after hb)
  known b hb := h.known b (List.mem_append_left after hb)

end StoredTrace

/-- The stream stops within the batch that comes next. -/
theorem Standing.all_of_cut {d : Decoder} (out : Output σ) {b : StoredBatch}
    (hcap : b.records.length ≤ d.capacity) {v : Standing σ} (hending : v.ending = .endOfFile)
    (hpart : v.rest <+: b.bytes) (hlt : v.rest.length < b.bytes.length) :
    v.all d out = (if v.rest.length = 0 then .ok v.totals
      else if v.rest.length < 4 then .error (.shortBatchLength v.rest.length)
      else .error (.shortBatch b.records.length (48 * b.records.length) (v.rest.length - 4)),
      { v with rest := [] }) := by
  by_cases hnil : v.rest = []
  · rw [all_of_nil hnil hending, if_pos (List.length_eq_zero_iff.2 hnil), ← hnil]
  · have hfront := Decoder.front_cut hcap v.ending hpart hlt
    have hsize : b.records.length * RawRecord.size = 48 * b.records.length := Nat.mul_comm ..
    have hskip : v.skip v.rest.length = { v with rest := [] } := by rw [skip, List.drop_length]
    have hcut (fault : Fault) : v.ending.cut fault = fault := by rw [hending]; rfl
    rw [if_neg fun h => hnil h.1, hcut, hsize] at hfront
    rw [all_of_error (batch_of_front_error hfront), hskip,
      if_neg fun h => hnil (List.length_eq_zero_iff.1 h)]
    split <;> rfl

/-- The stream stops within the header. -/
theorem convert_cut_header {config : Config} {t : StoredTrace}
    (hlimit : t.header.entries.length ≤ config.maxObjects) (out : Output σ) {n : Nat}
    (hn : n < t.header.bytes.length) (delivery : Delivery) (s : σ) :
    let outcome := convert config out (.ofBytes (t.bytes.take n) .endOfFile delivery) s
    ∃ field got, HeaderField.BreaksIn t.header.fields n field got ∧
      outcome.result = .error (.shortHeader field field.width got) ∧ outcome.source.rest = [] ∧
      outcome.printed = "" ∧ outcome.output = s := by
  intro outcome
  have hprefix : t.bytes.take n <+: t.header.bytes := by
    rw [StoredTrace.bytes, List.take_append_of_le_length (Nat.le_of_lt hn)]
    exact List.take_prefix ..
  have hlen : (t.bytes.take n).length = n := by
    rw [StoredTrace.bytes, List.take_append_of_le_length (Nat.le_of_lt hn)]
    exact List.length_take_of_le (Nat.le_of_lt hn)
  have hshort : (t.bytes.take n).length < t.header.bytes.length := by rwa [hlen]
  obtain ⟨field, got, hbreak, hread, hrest, -⟩ := (Header.reads_header t.header hlimit).broken
    (.ofBytes (t.bytes.take n) .endOfFile delivery) hprefix hshort
  have hconvert : outcome = _ := convert_of_read_error (Prod.ext hread rfl) out s
  replace hbreak : HeaderField.BreaksIn t.header.fields (t.bytes.take n).length field got := hbreak
  rw [hlen] at hbreak
  rw [hconvert]
  exact ⟨field, got, hbreak, rfl, hrest, rfl, rfl⟩

/-- The stream stops within the first batch that is not whole. -/
theorem convert_cut_batch {config : Config} {out : Output σ} (hout : out.NeverFails)
    {t : StoredTrace} (ht : t.Accepted config) {b : StoredBatch}
    (hcap : b.records.length ≤ config.batchCapacity) {part : List UInt8} (hpart : part <+: b.bytes)
    (hlt : part.length < b.bytes.length) (delivery : Delivery) (s : σ) :
    let outcome := convert config out (.ofBytes (t.bytes ++ part) .endOfFile delivery) s
    outcome.result = (if part.length = 0 then
        .ok ⟨t.header.startTime, t.header.entries.length, t.batches.length, t.records.length⟩
      else if part.length < 4 then .error (.shortBatchLength part.length)
      else .error (.shortBatch b.records.length (48 * b.records.length) (part.length - 4))) ∧
    outcome.source.rest = [] ∧
    outcome.output = out.calls (.title :: ((t.rows config).map .row ++ [.flush])) s := by
  intro outcome
  have hsource : (Source.ofBytes (t.bytes ++ part) .endOfFile delivery).rest = t.bytes ++ part := rfl
  obtain ⟨hresult, hrest, houtput⟩ := convert_behind hout ht hsource s
  rw [Standing.all_of_cut out hcap rfl hpart hlt] at hresult hrest houtput
  refine ⟨hresult.trans ?_, hrest, houtput.trans ?_⟩
  · dsimp only
    split
    · rfl
    · split <;> rfl
  · rw [Output.call_calls, List.cons_append]

/-- Conversion of the first `n` bytes of an accepted trace, for every `n` short of its length. -/
theorem convert_truncated {config : Config} {out : Output σ} (hout : out.NeverFails)
    {bytes : List UInt8} {delivery : Delivery} {s : σ} {summary : Summary}
    (h : (convert config out (.ofBytes bytes .endOfFile delivery) s).result = .ok summary) {n : Nat}
    (hn : n < bytes.length) (delivery' : Delivery) :
    ∃ t : StoredTrace, t.Accepted config ∧ bytes = t.bytes ∧
      let outcome := convert config out (.ofBytes (bytes.take n) .endOfFile delivery') s
      outcome.source.rest = [] ∧
      (n < t.header.bytes.length →
        ∃ field got, HeaderField.BreaksIn t.header.fields n field got ∧
          outcome.result = .error (.shortHeader field field.width got) ∧
          outcome.printed = "" ∧ outcome.output = s) ∧
      (t.header.bytes.length ≤ n →
        ∃ (whole : StoredTrace) (b : StoredBatch) (after : List StoredBatch) (got : Nat),
          t = ⟨whole.header, whole.batches ++ b :: after⟩ ∧
          n = whole.bytes.length + got ∧ got < b.bytes.length ∧
          outcome.output =
            out.calls (.title :: ((whole.rows config).map .row ++ [.flush])) s ∧
          outcome.result =
            if got = 0 then .ok ⟨whole.header.startTime, whole.header.entries.length,
              whole.batches.length, whole.records.length⟩
            else if got < 4 then .error (.shortBatchLength got)
            else .error (.shortBatch b.records.length (48 * b.records.length) (got - 4))) := by
  obtain ⟨t, ht, hbytes⟩ := exists_of_convert_eq_ok hout h
  obtain rfl : bytes = t.bytes := hbytes
  refine ⟨t, ht, rfl, ?_⟩
  intro outcome
  by_cases hheader : n < t.header.bytes.length
  · obtain ⟨field, got, hbreak, hresult, hrest, hprinted, houtput⟩ :=
      convert_cut_header ht.objects_le out hheader delivery' s
    exact ⟨hrest, fun _ => ⟨field, got, hbreak, hresult, hprinted, houtput⟩,
      fun hle => absurd hheader (Nat.not_lt.2 hle)⟩
  · obtain ⟨header, batches⟩ := t
    have hbody : n - header.bytes.length < (batches.flatMap StoredBatch.bytes).length := by
      rw [StoredTrace.bytes, List.length_append] at hn
      dsimp only at hn hheader
      omega
    obtain ⟨whole, b, after, part, rfl, htake, hpart, hlt⟩ := exists_cut hbody
    have hcut : (StoredTrace.bytes ⟨header, whole ++ b :: after⟩).take n =
        StoredTrace.bytes ⟨header, whole⟩ ++ part := by
      rw [StoredTrace.bytes, List.take_append, List.take_of_length_le (Nat.not_lt.1 hheader), htake,
        StoredTrace.bytes, List.append_assoc]
    have hcount : n = (StoredTrace.bytes ⟨header, whole⟩).length + part.length := by
      rw [← List.length_append, ← hcut, List.length_take_of_le (Nat.le_of_lt hn)]
    have hcap : b.records.length ≤ config.batchCapacity := ht.counts_le b (by simp)
    have hwhole : StoredTrace.Accepted config ⟨header, whole⟩ := ht.of_append
    obtain ⟨hresult, hrest, houtput⟩ := convert_cut_batch hout hwhole hcap hpart hlt delivery' s
    rw [← hcut] at hresult hrest houtput
    exact ⟨hrest, fun hlt => absurd hlt hheader,
      fun _ => ⟨_, b, after, part.length, rfl, hcount, hlt, houtput, hresult⟩⟩

/-- Two batches of one record each, cut off behind ten bytes of the second record. -/
theorem convert_truncated_second_batch :
    let e : StoredEntry := ⟨⟨80⟩, [82, 49], 0, by simp, by decide, .inl rfl⟩
    let header : StoredHeader := ⟨1000, [e], by decide⟩
    let first : StoredBatch := ⟨[.ofRaw ⟨1, ⟨80⟩, 2, 3, 1500, 4, 2000⟩], by decide⟩
    let second : StoredBatch := ⟨[.ofRaw ⟨2, ⟨96⟩, -1, 0, 1600, 0, 900⟩], by decide⟩
    let bytes := StoredTrace.bytes ⟨header, [first, second]⟩
    let outcome := fun n => convert .standard (Recording.output .none)
      (.ofBytes (bytes.take n) .endOfFile .prompt) .empty
    (Recording.output .none).NeverFails ∧ bytes.length = 127 ∧
      (outcome 127).result = .ok ⟨1000, 1, 2, 2⟩ ∧
      (outcome 89).result = .error (.shortBatch 1 48 10) ∧
      (outcome 89).output.calls =
        #[.title, .row ⟨"Reaction ends", "R1", some 2, 3, 500, 4, 1000⟩, .flush] := by
  intro e header first second bytes outcome
  have ht : StoredTrace.Accepted .standard ⟨header, [first, second]⟩ := ⟨by decide, by decide, by decide⟩
  have hlength : bytes.length = 127 := StoredTrace.length_bytes _
  have hnone : (StoredTrace.bytes ⟨header, []⟩).length = 23 := StoredTrace.length_bytes _
  have hone : (StoredTrace.bytes ⟨header, [first]⟩).length = 75 := StoredTrace.length_bytes _
  have hrow : first.bytes.length = 52 := first.length_bytes
  have hwhole := (convert_stored Recording.neverFails ht .prompt .empty).1
  have hcut : 89 < bytes.length := by omega
  obtain ⟨t, -, hbytes, -, -, hbody⟩ := convert_truncated Recording.neverFails hwhole hcut .prompt
  obtain rfl := StoredTrace.bytes_inj hbytes
  obtain ⟨⟨header', whole⟩, b, after, got, hsplit, hcount, hlt, houtput, hresult⟩ := hbody (by decide)
  obtain ⟨rfl, hbatches⟩ := StoredTrace.mk.inj hsplit
  cases whole with
  | nil =>
    obtain ⟨rfl, -⟩ := List.cons.inj hbatches
    omega
  | cons b' whole =>
    obtain ⟨rfl, hmore⟩ := List.cons.inj hbatches
    cases whole with
    | nil =>
      obtain ⟨rfl, -⟩ := List.cons.inj hmore
      obtain rfl : got = 14 := by omega
      have hentry : e.entry = ⟨⟨80⟩, "R1"⟩ := StoredEntry.entry_eq rfl
      have hrows : StoredTrace.rows ⟨header, [first]⟩ .standard =
          [⟨"Reaction ends", "R1", some 2, 3, 500, 4, 1000⟩] := by
        rw [StoredTrace.rows_eq, show header.entries.map StoredEntry.entry = [e.entry] from rfl, hentry]
        decide
      rw [hrows] at houtput
      refine ⟨Recording.neverFails, hlength, ?_, hresult, congrArg Recording.calls houtput⟩
      dsimp only [outcome]
      rw [List.take_of_length_le (Nat.le_of_eq hlength)]
      exact hwhole
    | cons b'' whole => simp at hmore

end ReactorTrace
