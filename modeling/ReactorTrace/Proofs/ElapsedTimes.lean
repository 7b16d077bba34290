import ReactorTrace.Proofs.Refusals
import ReactorTrace.Proofs.RoundTrip
import ReactorTrace.Proofs.SameRows

/-! Times in rows count from the start of the trace. They are exact as long as the difference fits into 64 bits
and are wrapped otherwise (`Elapsed`), so that only differences of times are ever seen: a trace whose times are
all moved by the same amount, with wraparound, has the same rows, the same fault and the same totals
(`convert_moved`). -/

namespace ReactorTrace

variable {σ : Type}

/-! ### Differences of times -/

/-- The time between a start and a later or earlier time, within 64 bits. -/
structure Elapsed (start time elapsed : Int64) : Prop where
  exact_iff : elapsed.toInt = time.toInt - start.toInt ↔
    -9223372036854775808 ≤ time.toInt - start.toInt ∧ time.toInt - start.toInt ≤ 9223372036854775807
  of_late : 9223372036854775807 < time.toInt - start.toInt →
    elapsed.toInt = time.toInt - start.toInt - 18446744073709551616
  of_early : time.toInt - start.toInt < -9223372036854775808 →
    elapsed.toInt = time.toInt - start.toInt + 18446744073709551616
  add_eq : start + elapsed = time

theorem elapsed_sub (start time : Int64) : Elapsed start time (time - start) := by
  have hsub : (time - start).toInt = Int.bmod (time.toInt - start.toInt) 18446744073709551616 :=
    Int64.toInt_sub ..
  have hstart := start.le_toInt
  have hstart' := start.toInt_lt
  have htime := time.le_toInt
  have htime' := time.toInt_lt
  -- the remainder that lies around zero is the difference itself or one modulus away from it
  rw [Int.bmod_def] at hsub
  constructor
  case exact_iff => omega
  case of_late => omega
  case of_early => omega
  case add_eq => rw [Int64.add_comm, Int64.sub_add_cancel]

theorem elapsed_move (start time δ : Int64) : (time + δ) - (start + δ) = time - start := by
  grind

/-- Both time columns hold the time since the start, in decimal. -/
structure Row.ShowsTimes (row : Row) (start logicalTime physicalTime : Int64) : Prop where
  logical_text : row.fields[4]? = some row.elapsedLogical.toInt.repr
  logical : Elapsed start logicalTime row.elapsedLogical
  physical_text : row.fields[6]? = some row.elapsedPhysical.toInt.repr
  physical : Elapsed start physicalTime row.elapsedPhysical

theorem Row.showsTimes_ofRecord (record : Record) (event reactor : String) (start : Int64) :
    (ofRecord record event reactor start).ShowsTimes start record.logicalTime record.physicalTime :=
  ⟨rfl, elapsed_sub .., rfl, elapsed_sub ..⟩

theorem Decoder.showsTimes_row {d : Decoder} {index : Nat} {raw : RawRecord} {row : Row}
    (h : d.row index raw = .ok row) :
    row.ShowsTimes d.header.startTime raw.logicalTime raw.physicalTime := by
  rw [row_eq] at h
  split at h
  · obtain rfl := Except.ok.inj h
    exact Row.showsTimes_ofRecord (Record.ofRaw raw) ..
  · cases h

/-! ### Moved traces -/

/-- Both times are moved. -/
def RawRecord.move (δ : Int64) (raw : RawRecord) : RawRecord :=
  { raw with logicalTime := raw.logicalTime + δ, physicalTime := raw.physicalTime + δ }

/-- The second record is the first one with its times moved, and may differ in its padding. -/
def StoredRecord.Moved (δ : Int64) (r r' : StoredRecord) : Prop := r'.raw = r.raw.move δ

def StoredBatch.Moved (δ : Int64) (b b' : StoredBatch) : Prop :=
  List.Forall₂ (StoredRecord.Moved δ) b.records b'.records

/-- The start and both times of every record are moved; nothing else that is read differs. -/
structure StoredTrace.Moved (δ : Int64) (t t' : StoredTrace) : Prop where
  startTime_eq : t'.header.startTime = t.header.startTime + δ
  entries_eq : t'.header.entries = t.header.entries
  batches : List.Forall₂ (StoredBatch.Moved δ) t.batches t'.batches

/-! Every trace can be moved by any amount. -/

def StoredRecord.move (δ : Int64) (r : StoredRecord) : StoredRecord := .ofRaw (r.raw.move δ)

theorem StoredRecord.moved_move (δ : Int64) (r : StoredRecord) : r.Moved δ (r.move δ) := raw_ofRaw _

def StoredBatch.move (δ : Int64) (b : StoredBatch) : StoredBatch :=
  ⟨b.records.map (StoredRecord.move δ), by rw [List.length_map]; exact b.count_le⟩

theorem StoredBatch.moved_move (δ : Int64) (b : StoredBatch) : b.Moved δ (b.move δ) :=
  List.forall₂_map_right_iff.2 (List.forall₂_same.2 fun r _ => r.moved_move δ)

def StoredTrace.move (δ : Int64) (t : StoredTrace) : StoredTrace :=
  ⟨{ t.header with startTime := t.header.startTime + δ }, t.batches.map (StoredBatch.move δ)⟩

theorem StoredTrace.moved_move (δ : Int64) (t : StoredTrace) : t.Moved δ (t.move δ) :=
  ⟨rfl, rfl, List.forall₂_map_right_iff.2 (List.forall₂_same.2 fun b _ => b.moved_move δ)⟩

/-! ### Rows of moved records -/

namespace Decoder

/-- The second decoder starts later by `δ`, and is the same in all else. -/
structure Moved (δ : Int64) (d d' : Decoder) : Prop where
  startTime_eq : d'.header.startTime = d.header.startTime + δ
  symbols_eq : d'.header.symbols = d.header.symbols
  eventNames_eq : d'.eventNames = d.eventNames
  capacity_eq : d'.capacity = d.capacity

variable {δ : Int64} {d d' : Decoder}

theorem Moved.rowOf_move (h : d.Moved δ d') (raw : RawRecord) : d'.rowOf (raw.move δ) = d.rowOf raw := by
  have hlogical := elapsed_move d.header.startTime raw.logicalTime δ
  have hphysical := elapsed_move d.header.startTime raw.physicalTime δ
  simp only [rowOf, h.startTime_eq, h.symbols_eq, h.eventNames_eq, RawRecord.move, Row.ofRecord, Record.ofRaw,
    Record.elapsedLogical, Record.elapsedPhysical, hlogical, hphysical]
  rfl

/-- The event type is not moved, so that a record of unknown type stays one. -/
theorem Moved.sameRow (h : d.Moved δ d') {r r' : StoredRecord} (hr : r.Moved δ r') : d.SameRow d' r r' := by
  intro index
  have htype : (r.raw.move δ).eventType = r.raw.eventType := rfl
  rw [hr, row_eq, row_eq, h.eventNames_eq, h.rowOf_move, htype]

theorem Moved.sameRows (h : d.Moved δ d') {b b' : StoredBatch} (hb : b.Moved δ b') : d.SameRows d' b b' :=
  hb.imp fun _ _ hr => h.sameRow hr

end Decoder

theorem Decoder.Moved.sameBody {δ : Int64} {d d' : Decoder} (h : d.Moved δ d') (out : Output σ)
    {batches batches' : List StoredBatch} (hbatches : List.Forall₂ (StoredBatch.Moved δ) batches batches') :
    d.SameBody d' out batches batches' [] where
  capacity_eq := h.capacity_eq
  batches := hbatches.imp fun _ _ hb => h.sameRows hb
  tail _ hrest := Standing.all_eq_of_nil d d' out hrest

/-! ### Conversions of moved traces -/

/-- The second conversion ends like the first one, with all totals the same, and reports the moved start; it
leaves the output in the same state and takes as many bytes. -/
structure ConvertMoved (config : Config) (out : Output σ) (δ : Int64) (source source' : Source) (s : σ) :
    Prop where
  result_eq : (convert config out source' s).result = (convert config out source s).result.map fun summary =>
    { summary with startTime := summary.startTime + δ }
  output_eq : (convert config out source' s).output = (convert config out source s).output
  taken : ∃ taken ≤ source.rest.length, taken ≤ source'.rest.length ∧
    (convert config out source s).source.rest = source.rest.drop taken ∧
    (convert config out source' s).source.rest = source'.rest.drop taken

namespace StoredTrace.Moved

variable {δ : Int64} {t t' : StoredTrace}

theorem header_symbols_eq (h : t.Moved δ t') : t'.header.header.symbols = t.header.header.symbols := by
  rw [StoredHeader.header, h.entries_eq, StoredHeader.header]

theorem decoder (h : t.Moved δ t') (config : Config) : (t.decoder config).Moved δ (t'.decoder config) :=
  ⟨h.startTime_eq, h.header_symbols_eq, rfl, rfl⟩

theorem length_header_eq (h : t.Moved δ t') : t'.header.bytes.length = t.header.bytes.length := by
  simp only [StoredHeader.bytes, List.length_append, LittleEndian.length_encodeInt64, h.entries_eq]

theorem summary_eq (h : t.Moved δ t') (totals : Totals) :
    t'.header.header.summary totals =
      { t.header.header.summary totals with startTime := (t.header.header.summary totals).startTime + δ } := by
  rw [Header.summary, Header.summary, h.header_symbols_eq]
  congr 1
  exact h.startTime_eq

theorem convert (h : t.Moved δ t') (config : Config) (out : Output σ) (s : σ) (ending : Ending)
    (delivery delivery' : Delivery) :
    ConvertMoved config out δ (.ofBytes t.bytes ending delivery) (.ofBytes t'.bytes ending delivery') s := by
  have hsource (t : StoredTrace) (delivery : Delivery) : (Source.ofBytes t.bytes ending delivery).rest =
      t.header.bytes ++ (t.batches.flatMap StoredBatch.bytes ++ []) := by
    rw [List.append_nil]
    rfl
  by_cases hlimit : t.header.entries.length ≤ config.maxObjects
  · have hlimit' : t'.header.entries.length ≤ config.maxObjects := by rwa [h.entries_eq]
    obtain ⟨⟨ended, hresult, hresult'⟩, -, -, houtput, htaken⟩ :=
      SameCourse.of_stored hlimit hlimit' h.length_header_eq ((h.decoder config).sameBody out h.batches)
        (hsource t delivery) (hsource t' delivery') rfl s
    refine ⟨?_, houtput.symm, htaken⟩
    rw [hresult, hresult']
    cases ended with
    | error fault => rfl
    | ok totals => exact congrArg Except.ok (h.summary_eq totals)
  · have hmany := Nat.not_le.1 hlimit
    obtain ⟨body, hread, hle, hbody⟩ := Header.read_of_many hmany (hsource t delivery)
    obtain ⟨body', hread', hle', hbody'⟩ :=
      Header.read_of_many (h.entries_eq ▸ hmany) (hsource t' delivery')
    rw [h.entries_eq] at hread'
    have hconvert := convert_of_read_error hread out s
    have hconvert' := convert_of_read_error hread' out s
    exact ⟨by rw [hconvert, hconvert']; rfl, by rw [hconvert, hconvert'], 12, hle, hle',
      by rw [hconvert, hbody], by rw [hconvert', hbody']⟩

end StoredTrace.Moved

/-- Rows show times as differences from the start within 64 bits, and nothing else of them is seen: when the
start and all times of a trace are moved by one amount, with wraparound, conversion goes the same way, with the
same calls. -/
theorem convert_moved :
    (∀ (record : Record) (event reactor : String) (start : Int64),
      (Row.ofRecord record event reactor start).ShowsTimes start record.logicalTime record.physicalTime) ∧
    (∀ (d : Decoder) (index : Nat) (raw : RawRecord) (row : Row), d.row index raw = .ok row →
      row.ShowsTimes d.header.startTime raw.logicalTime raw.physicalTime) ∧
    ∀ (config : Config) (out : Output σ) (s : σ) (δ : Int64) (t : StoredTrace),
      (∃ t', t.Moved δ t') ∧ ∀ t', t.Moved δ t' → ∀ (ending : Ending) (delivery delivery' : Delivery),
        let source := Source.ofBytes t.bytes ending delivery
        let source' := Source.ofBytes t'.bytes ending delivery'
        ConvertMoved config out δ source source' s ∧
          ConvertMoved config out.logged δ source source' (s, []) := by
  refine ⟨Row.showsTimes_ofRecord, fun d index raw row => Decoder.showsTimes_row, ?_⟩
  intro config out s δ t
  refine ⟨⟨t.move δ, t.moved_move δ⟩, fun t' h ending delivery delivery' => ?_⟩
  exact ⟨h.convert config out s ending delivery delivery',
    h.convert config out.logged (s, []) ending delivery delivery'⟩

/-- The start wraps around, the times of the second record do not, and that record is of unknown type. -/
theorem convert_moved_wrapping :
    let first : RawRecord := ⟨0, ⟨1⟩, -1, 0, 1007, 0, 990⟩
    let raws : List RawRecord := [first, ⟨9, ⟨1⟩, 0, 0, 0, 0, 0⟩]
    let row : Row := ⟨"Reaction starts", "NO DESCRIPTION FOUND", none, 0, 7, 0, -10⟩
    let outcome := fun t : StoredTrace =>
      convert .standard (Recording.output .none) (.ofBytes t.bytes .endOfFile .prompt) .empty
    ∃ t t' : StoredTrace, t.header.startTime = 1000 ∧ t'.header.startTime = -9223372036854774809 ∧
      t.batches.map StoredBatch.raws = [raws] ∧ t.Moved Int64.maxValue t' ∧
      (outcome t').result = .error (.unknownEvent 1 9 9) ∧
      (outcome t').output.calls = #[.title, .row row, .flush] ∧
      row.ShowsTimes 1000 first.logicalTime first.physicalTime := by
  intro first raws row outcome
  have hmax : raws.length ≤ Encoder.maxCount := by decide
  obtain ⟨b, -, hraws, hcount⟩ := Encoder.exists_storedRaws hmax
  let t : StoredTrace := ⟨⟨1000, [], by decide⟩, [b]⟩
  let d := t.decoder .standard
  have hlimit : t.header.entries.length ≤ Config.standard.maxObjects := Nat.zero_le _
  have hcap : ∀ b ∈ t.batches, b.records.length ≤ Config.standard.batchCapacity := by
    intro b' hb'
    obtain rfl := List.mem_singleton.1 hb'
    rw [hcount]
    decide
  have hsymbols : d.header.symbols = SymbolTable.ofList [] := rfl
  have hrecord : (Record.ofRaw first).row .standard 1000 [] = row := by decide
  have hrow : d.rowOf first = row := (Decoder.rowOf_eq hsymbols first).trans hrecord
  have hfirst : d.row 0 first = .ok row := by
    have hknows : EventNames.standard.Knows first.eventType := by decide
    rw [Decoder.row_eq, hrow]
    exact if_pos hknows
  have hrows : (d.known raws).map d.rowOf = [row] := congrArg (fun row => [row]) hrow
  have hstart : (1000 : Int64) + Int64.maxValue = -9223372036854774809 := by decide
  obtain ⟨hresult, houtput⟩ := convert_up_to_unknown Recording.neverFails hlimit hcap .prompt .empty
  obtain ⟨-, hshows, hmoved⟩ := convert_moved (σ := Recording)
  obtain ⟨hresult', houtput', -⟩ := ((hmoved .standard (Recording.output .none) .empty
    Int64.maxValue t).2 _ (t.moved_move _) .endOfFile .prompt .prompt).1
  refine ⟨t, _, rfl, hstart, ?_, t.moved_move _, hresult'.trans ?_, ?_, ?_⟩
  · rw [List.map_singleton, hraws]
  · rw [hresult, List.findSome?_singleton, hraws, Decoder.rows_fault_eq]
    rfl
  · refine (congrArg Recording.calls (houtput'.trans houtput)).trans ?_
    rw [List.flatMap_singleton, hraws, hrows]
    rfl
  · exact hshows d 0 first row hfirst

end ReactorTrace
