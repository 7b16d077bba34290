import ReactorTrace.Proofs.Acceptance
import ReactorTrace.Proofs.Records
import ReactorTrace.Proofs.Utf8

/-! Traces written and converted back. What the encoder writes is a stored trace: descriptions end in a
zero byte, and records have their padding zero. Conversion of a stored trace whose batches are not too
long writes the rows of its records in order, up to the first one of unknown event type
(`all_stored`); of a written trace these are the rows of the records that were written
(`convert_trace`). -/

namespace ReactorTrace

variable {σ : Type}

/-! ### Bodies with unknown event types -/

open Decoder in
/-- A body whose batches are within the capacity is decoded up to its first record of unknown event
type, if there is one. -/
theorem Standing.all_stored {d : Decoder} {out : Output σ} (hout : out.NeverFails)
    {batches : List StoredBatch} (hcap : ∀ b ∈ batches, b.records.length ≤ d.capacity)
    (v : Standing σ) (hrest : v.rest = batches.flatMap StoredBatch.bytes)
    (hending : v.ending = .endOfFile) :
    (v.all d out).1 = (match batches.findSome? fun b => (d.rows 0 b.raws).2 with
      | none => .ok ⟨v.totals.batches + batches.length,
          v.totals.records + (batches.flatMap StoredBatch.records).length⟩
      | some fault => .error fault) ∧
    (v.all d out).2.output =
      out.calls (((d.known (batches.flatMap StoredBatch.raws)).map d.rowOf).map .row) v.output := by
  induction batches generalizing v with
  | nil =>
    rw [all_of_nil hrest hending]
    exact ⟨rfl, rfl⟩
  | cons b batches ih =>
    obtain ⟨hb, hbatches⟩ := List.forall_mem_cons.1 hcap
    rw [List.findSome?_cons, rows_eq]
    simp only [List.flatMap_cons] at hrest ⊢
    cases hunknown : d.unknown? b.raws with
    | some raw =>
      rw [all_of_error (batch_of_unknown hout hb hunknown hrest), known_append_of_unknown hunknown,
        Option.map_some, Nat.zero_add]
      exact ⟨rfl, rfl⟩
    | none =>
      have hknown := unknown?_eq_none_iff.1 hunknown
      rw [all_of_decoded (batch_of_accepts hout ⟨hb, hknown⟩ hrest), known_append hknown]
      obtain ⟨hresult, houtput⟩ :=
        ih hbatches (v.behind d out [b] (batches.flatMap StoredBatch.bytes)) rfl hending
      refine ⟨hresult.trans ?_, houtput.trans ?_⟩
      · rw [Option.map_none]
        cases batches.findSome? fun b => (d.rows 0 b.raws).2 with
        | none =>
          simp only [behind, List.flatMap_cons, List.flatMap_nil, List.append_nil,
            List.length_append, List.length_cons, List.length_nil]
          congr 2 <;> omega
        | some fault => rfl
      · simp [behind]

/-- Conversion of a stored trace whose numbers of objects and of records are accepted, whatever the
event types of its records. -/
theorem convert_up_to_unknown {config : Config} {out : Output σ} (hout : out.NeverFails)
    {t : StoredTrace} (hlimit : t.header.entries.length ≤ config.maxObjects)
    (hcap : ∀ b ∈ t.batches, b.records.length ≤ config.batchCapacity) (delivery : Delivery) (s : σ) :
    let d := t.decoder config
    let outcome := convert config out (.ofBytes t.bytes .endOfFile delivery) s
    outcome.result = (match t.batches.findSome? fun b => (d.rows 0 b.raws).2 with
      | none => .ok ⟨t.header.startTime, t.header.entries.length, t.batches.length, t.records.length⟩
      | some fault => .error fault) ∧
    outcome.output = out.calls (.title ::
      (((d.known (t.batches.flatMap StoredBatch.raws)).map d.rowOf).map .row ++ [.flush])) s := by
  intro d outcome
  obtain ⟨hread, hrest, hending⟩ := (Header.reads_header t.header hlimit).whole
    (.ofBytes t.bytes .endOfFile delivery) _ rfl
  obtain ⟨hresult, -, houtput⟩ := convert_of_read_ok hout (Prod.ext hread rfl) s
  have hcap' : ∀ b ∈ t.batches, b.records.length ≤ d.capacity := hcap
  obtain ⟨hbody, hwritten⟩ := Standing.all_stored hout hcap'
    ⟨_, _, ⟨0, 0⟩, out.call s .title⟩ hrest hending
  rw [Nat.zero_add, Nat.zero_add] at hbody
  constructor
  · rw [hresult, t.header.size_symbols]
    refine (congrArg _ hbody).trans ?_
    cases t.batches.findSome? fun b => (d.rows 0 b.raws).2 <;> rfl
  · rw [houtput]
    refine (congrArg (out.call · .flush) hwritten).trans ?_
    exact out.call_calls (.title :: _) .flush s

/-! ### Written traces are stored ones -/

/-- The descriptions that fit into an entry. -/
structure SymbolEntry.Storable (entry : SymbolEntry) : Prop where
  size_le : entry.description.utf8ByteSize ≤ Header.descriptionLimit
  no_zero : '\x00' ∉ entry.description.toList

namespace Encoder

theorem exists_storedEntries {entries : List SymbolEntry} (h : ∀ entry ∈ entries, entry.Storable) :
    ∃ stored : List StoredEntry, stored.map StoredEntry.entry = entries ∧
      stored.flatMap StoredEntry.bytes = entries.flatMap encodeEntry := by
  induction entries with
  | nil => exact ⟨[], rfl, rfl⟩
  | cons entry entries ih =>
    obtain ⟨hentry, hentries⟩ := List.forall_mem_cons.1 h
    obtain ⟨stored, hmap, hbytes⟩ := ih hentries
    let e : StoredEntry :=
      { object := entry.object
        description := Text.Utf8.encode entry.description
        stop := 0
        nonzero := Text.Utf8.encode_ne_zero hentry.no_zero
        length_le := by
          rw [Text.Utf8.length_encode]
          exact hentry.size_le
        stopped := .inl rfl }
    have hread : e.entry = entry := StoredEntry.entry_eq rfl
    have hwritten : e.bytes = encodeEntry entry := (List.append_assoc ..).symm
    refine ⟨e :: stored, ?_, ?_⟩
    · rw [List.map_cons, hread, hmap]
    · rw [List.flatMap_cons, hwritten, hbytes, List.flatMap_cons]

/-- A header whose descriptions fit is written as a stored one. -/
theorem exists_storedHeader (startTime : Int64) {entries : List SymbolEntry}
    (hmax : entries.length ≤ maxCount) (h : ∀ entry ∈ entries, entry.Storable) :
    ∃ stored : StoredHeader, encodeHeader startTime entries = .ok stored.bytes ∧
      stored.startTime = startTime ∧ stored.entries.map StoredEntry.entry = entries := by
  obtain ⟨stored, hread, hwritten⟩ := exists_storedEntries h
  have hcount : stored.length = entries.length := by rw [← hread, List.length_map]
  let header : StoredHeader := ⟨startTime, stored, hcount ▸ hmax⟩
  refine ⟨header, ?_, rfl, hread⟩
  rw [encodeHeader, if_pos hmax, ← hwritten, ← hcount, List.append_assoc]
  rfl

/-- The records of a batch. A raw record has no reaction if its number is negative. -/
def Step.records : Step → List Record
  | header .. => []
  | batch records => records
  | rawBatch raws => raws.map fun (raw : RawRecord) =>
    { eventType := raw.eventType
      object := raw.object
      reaction :=
        if raw.reaction.toInt < (0 : Int) then none
        else some (UInt32.ofNat raw.reaction.toInt.toNat)
      worker := raw.worker
      logicalTime := raw.logicalTime
      microstep := raw.microstep
      physicalTime := raw.physicalTime }

/-- The batches that can be written, and read with this capacity. -/
inductive Step.Fits (capacity : Nat) : Step → Prop
  | batch (records : List Record) (hstorable : ∀ record ∈ records, record.Storable)
      (hmax : records.length ≤ maxCount) (hcap : records.length ≤ capacity) :
    Fits capacity (.batch records)
  | rawBatch (raws : List RawRecord) (hmax : raws.length ≤ maxCount)
      (hcap : raws.length ≤ capacity) :
    Fits capacity (.rawBatch raws)

theorem Step.records_rawBatch (raws : List RawRecord) :
    (rawBatch raws).records = raws.map Record.ofRaw := by
  rw [records]
  congr 1
  funext raw
  rw [← Record.reaction_ofRaw]
  rfl

theorem exists_storedRaws {raws : List RawRecord} (hmax : raws.length ≤ maxCount) :
    ∃ b : StoredBatch, encodeRawBatch raws = .ok b.bytes ∧ b.raws = raws ∧
      b.records.length = raws.length := by
  let b : StoredBatch := ⟨raws.map .ofRaw, by rwa [List.length_map]⟩
  have hlen : b.records.length = raws.length := List.length_map ..
  refine ⟨b, ?_, ?_, hlen⟩
  · rw [encodeRawBatch, if_pos hmax, StoredBatch.bytes, hlen, StoredBatch.block, List.flatMap_map]
    rfl
  · rw [StoredBatch.raws, List.map_map]
    exact List.map_id'' StoredRecord.raw_ofRaw raws

/-- A batch that fits is written as a stored batch of its records. -/
theorem exists_storedBatch {capacity : Nat} {step : Step} (h : step.Fits capacity) :
    ∃ b : StoredBatch, step.encode = .ok b.bytes ∧ b.raws.map Record.ofRaw = step.records ∧
      b.records.length ≤ capacity := by
  cases h with
  | batch records hstorable hmax hcap =>
    obtain ⟨raws, hraws, hback⟩ := Record.exists_mapM_toRaw hstorable
    have hlen : raws.length = records.length := by rw [← hback, List.length_map]
    obtain ⟨b, hencode, rfl, hcount⟩ := exists_storedRaws (hlen ▸ hmax)
    refine ⟨b, ?_, hback, by omega⟩
    rw [Step.encode, encodeBatch, hraws]
    exact hencode
  | rawBatch raws hmax hcap =>
    obtain ⟨b, hencode, rfl, hcount⟩ := exists_storedRaws hmax
    exact ⟨b, hencode, (Step.records_rawBatch _).symm, by omega⟩

theorem Step.bytes_eq {step : Step} {bs : List UInt8} (h : step.encode = .ok bs) :
    step.bytes = bs := by
  rw [bytes, h]

/-- What is read of the batches of a body, beside their bytes. -/
theorem exists_storedBatches {capacity : Nat} {steps : List Step}
    (h : ∀ step ∈ steps, step.Fits capacity) :
    ∃ stored : List StoredBatch, (∀ b ∈ stored, b.records.length ≤ capacity) ∧
      stored.map (fun b => (b.bytes, b.raws.map Record.ofRaw)) =
        steps.map fun step => (step.bytes, step.records) := by
  induction steps with
  | nil => exact ⟨[], by simp, rfl⟩
  | cons step steps ih =>
    obtain ⟨hstep, hsteps⟩ := List.forall_mem_cons.1 h
    obtain ⟨b, hencode, hrecords, hcap⟩ := exists_storedBatch hstep
    obtain ⟨stored, hstored, hmap⟩ := ih hsteps
    refine ⟨b :: stored, List.forall_mem_cons.2 ⟨hcap, hstored⟩, ?_⟩
    rw [List.map_cons, List.map_cons, hmap, hrecords, Step.bytes_eq hencode]

theorem Step.Fits.encode_eq {capacity : Nat} {step : Step} (h : step.Fits capacity) :
    step.encode = .ok step.bytes := by
  obtain ⟨b, hencode, -⟩ := exists_storedBatch h
  rw [Step.bytes_eq hencode, hencode]

/-- A header and the batches behind it are written as a stored trace. -/
theorem exists_storedTrace (startTime : Int64) {entries : List SymbolEntry}
    (hmax : entries.length ≤ maxCount) (hentries : ∀ entry ∈ entries, entry.Storable)
    {capacity : Nat} {batches : List Step} (hbatches : ∀ b ∈ batches, b.Fits capacity) :
    ∃ t : StoredTrace, t.bytes = trace (.header startTime entries :: batches) ∧
      t.header.startTime = startTime ∧ t.header.entries.map StoredEntry.entry = entries ∧
      (∀ b ∈ t.batches, b.records.length ≤ capacity) ∧
      t.batches.map (fun b => (b.bytes, b.raws.map Record.ofRaw)) =
        batches.map fun step => (step.bytes, step.records) := by
  obtain ⟨header, hheader, rfl, hread⟩ := exists_storedHeader startTime hmax hentries
  obtain ⟨storedBatches, hcap, hmap⟩ := exists_storedBatches hbatches
  refine ⟨⟨header, storedBatches⟩, ?_, rfl, hread, hcap, hmap⟩
  have hstep : (Step.header header.startTime entries).encode = .ok header.bytes := hheader
  have hbody := congrArg (List.flatMap Prod.fst) hmap
  rw [List.flatMap_map, List.flatMap_map] at hbody
  rw [trace, List.flatMap_cons, Step.bytes_eq hstep]
  exact congrArg (header.bytes ++ ·) hbody

end Encoder

/-! ### The round trip -/

/-- The fault of the first record of unknown event type in a batch. -/
def Record.fault? (names : EventNames) (records : List Record) : Option Fault :=
  (records.zipIdx.find? fun p => ¬ names.Knows p.1.eventType).map fun p =>
    .unknownEvent p.2 p.1.eventType names.size

theorem Decoder.rows_known_eq {d : Decoder} {entries : List SymbolEntry}
    (h : d.header.symbols = SymbolTable.ofList entries) (raws : List RawRecord) :
    (d.known raws).map d.rowOf =
      ((raws.map Record.ofRaw).takeWhile fun record => d.eventNames.Knows record.eventType).map
        (Record.row d.eventNames d.header.startTime entries) := by
  rw [List.takeWhile_map, List.map_map]
  exact List.map_congr_left fun raw _ => rowOf_eq h raw

theorem Decoder.rows_fault_eq (d : Decoder) (index : Nat) (raws : List RawRecord) :
    (d.rows index raws).2 = (((raws.map Record.ofRaw).zipIdx index).find? fun p =>
      ¬ d.eventNames.Knows p.1.eventType).map fun p =>
        .unknownEvent p.2 p.1.eventType d.eventNames.size := by
  induction raws generalizing index with
  | nil => rfl
  | cons raw raws ih =>
    have htype : (Record.ofRaw raw).eventType = raw.eventType := rfl
    rw [rows, row_eq, List.map_cons, List.zipIdx_cons, List.find?_cons]
    by_cases hknown : d.eventNames.Knows raw.eventType
    · simp [hknown, htype, ih]
    · simp [hknown, htype]

/-- A written trace is converted to the rows of its records, in the order in which they were written,
up to the first one of unknown event type. -/
theorem convert_trace (config : Config) {out : Output σ} (hout : out.NeverFails)
    (startTime : Int64) {entries : List SymbolEntry} (hmax : entries.length ≤ Encoder.maxCount)
    (hlimit : entries.length ≤ config.maxObjects) (hentries : ∀ entry ∈ entries, entry.Storable)
    {batches : List Encoder.Step} (hbatches : ∀ b ∈ batches, b.Fits config.batchCapacity)
    (delivery : Delivery) (s : σ) :
    let steps := .header startTime entries :: batches
    let records := batches.flatMap Encoder.Step.records
    let known := records.takeWhile fun record => config.eventNames.Knows record.eventType
    let rows := known.map (Record.row config.eventNames startTime entries)
    let outcome := convert config out (.ofBytes (Encoder.trace steps) .endOfFile delivery) s
    (∀ step ∈ steps, step.encode = .ok step.bytes) ∧
    outcome.output = out.calls (.title :: (rows.map .row ++ [.flush])) s ∧
    outcome.result =
      match batches.findSome? fun b => Record.fault? config.eventNames b.records with
      | none => .ok ⟨startTime, entries.length, batches.length, records.length⟩
      | some fault => .error fault := by
  intro steps records known rows outcome
  obtain ⟨t, hbytes, rfl, hread, hcap, hmap⟩ :=
    Encoder.exists_storedTrace startTime hmax hentries hbatches
  have hobjects : t.header.entries.length = entries.length := by rw [← hread, List.length_map]
  have hbatchCount : t.batches.length = batches.length := by
    have hlen := congrArg List.length hmap
    rwa [List.length_map, List.length_map] at hlen
  have hrecords : (t.batches.flatMap StoredBatch.raws).map Record.ofRaw = records := by
    have hbody := congrArg (List.flatMap Prod.snd) hmap
    rwa [List.flatMap_map, List.flatMap_map, ← List.map_flatMap] at hbody
  have hrecordCount : t.records.length = records.length := by
    rw [← hrecords, List.length_map, t.flatMap_raws, List.length_map]
  have hfault : (t.batches.findSome? fun b => ((t.decoder config).rows 0 b.raws).2) =
      batches.findSome? fun b => Record.fault? config.eventNames b.records := by
    have hbody := congrArg (List.findSome? fun p => Record.fault? config.eventNames p.2) hmap
    rw [List.findSome?_map, List.findSome?_map] at hbody
    simp only [Decoder.rows_fault_eq]
    exact hbody
  have hsymbols : (t.decoder config).header.symbols = SymbolTable.ofList entries :=
    congrArg SymbolTable.ofList hread
  have hrows := Decoder.rows_known_eq hsymbols (t.batches.flatMap StoredBatch.raws)
  obtain ⟨hresult, houtput⟩ := convert_up_to_unknown hout (hobjects ▸ hlimit) hcap delivery s
  rw [hfault, hbytes, hobjects, hbatchCount, hrecordCount] at hresult
  rw [hrows, hbytes, hrecords] at houtput
  refine ⟨?_, houtput, hresult⟩
  intro step hstep
  rcases List.mem_cons.1 hstep with rfl | hstep
  · have hheader : (Encoder.Step.header t.header.startTime entries).encode = .ok _ := if_pos hmax
    rw [Encoder.Step.bytes_eq hheader, hheader]
  · exact (hbatches step hstep).encode_eq

/-- Two entries with one identity, a batch of records, and a batch of raw records whose last event type
is unknown. -/
theorem convert_trace_repeated_identity :
    let entries : List SymbolEntry := [⟨⟨1⟩, "first"⟩, ⟨⟨1⟩, "second"⟩]
    let batches : List Encoder.Step := [.batch [⟨0, ⟨1⟩, some 3, 0, 1007, 0, 1009⟩],
      .rawBatch [⟨8, ⟨2⟩, -5, 1, 1010, 0, 990⟩, ⟨9, ⟨1⟩, 0, 0, 0, 0, 0⟩]]
    let outcome := convert .standard (Recording.output .none)
      (.plain (Encoder.trace (.header 1000 entries :: batches))) .empty
    (Recording.output .none).NeverFails ∧ entries.length ≤ Encoder.maxCount ∧
      entries.length ≤ Config.standard.maxObjects ∧ (∀ entry ∈ entries, entry.Storable) ∧
      (∀ b ∈ batches, b.Fits Config.standard.batchCapacity) ∧
      outcome.result = .error (.unknownEvent 1 9 9) ∧
      outcome.output.calls = #[.title,
        .row ⟨"Reaction starts", "first", some 3, 0, 7, 0, 9⟩,
        .row ⟨"Scheduler advancing time ends", "NO DESCRIPTION FOUND", none, 1, 10, 0, -10⟩,
        .flush] := by
  intro entries batches outcome
  have hmax : entries.length ≤ Encoder.maxCount := by decide
  have hlimit : entries.length ≤ Config.standard.maxObjects := by decide
  have hentries : ∀ entry ∈ entries, entry.Storable := by
    intro entry hentry
    simp only [entries, List.mem_cons, List.not_mem_nil, or_false] at hentry
    rcases hentry with rfl | rfl <;> exact ⟨by decide, by decide⟩
  have hbatches : ∀ b ∈ batches, b.Fits Config.standard.batchCapacity := by
    intro b hb
    simp only [batches, List.mem_cons, List.not_mem_nil, or_false] at hb
    rcases hb with rfl | rfl
    · refine .batch _ ?_ (by decide) (by decide)
      intro record hrecord r hr
      obtain rfl := List.mem_singleton.1 hrecord
      obtain rfl := Option.some.inj hr
      decide
    · exact .rawBatch _ (by decide) (by decide)
  obtain ⟨-, houtput, hresult⟩ := convert_trace .standard Recording.neverFails 1000 hmax hlimit
    hentries hbatches .prompt .empty
  refine ⟨Recording.neverFails, hmax, hlimit, hentries, hbatches, hresult, ?_⟩
  exact (congrArg Recording.calls houtput).trans rfl

end ReactorTrace
