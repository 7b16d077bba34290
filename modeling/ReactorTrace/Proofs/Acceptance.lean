import ReactorTrace.Conversion
import ReactorTrace.Proofs.StoredTrace
import ReactorTrace.Proofs.Symbols
import ReactorTrace.Proofs.Utf8

/-! What conversion accepts. A byte string is converted without a fault exactly when it is a stored
trace within the limits of the configuration, down to its last byte (`convert_accepts`). Behind the
accepted batches at the front of any byte string, conversion goes on from where they end
(`convert_behind`). -/

namespace ReactorTrace

variable {σ : Type}

theorem StoredHeader.size_symbols (h : StoredHeader) : h.header.symbols.size = h.entries.length := by
  rw [header, SymbolTable.size_ofList, List.length_map]

theorem StoredEntry.entry_eq {e : StoredEntry} {text : String}
    (h : e.description = Text.Utf8.encode text) : e.entry = ⟨e.object, text⟩ := by
  rw [entry, h, Text.Utf8.decodeLossy_encode]

/-- The row of a record in a trace with these objects. An identity stands for its first description. -/
def Record.row (names : EventNames) (startTime : Int64) (entries : List SymbolEntry)
    (record : Record) : Row where
  event := names.name record.eventType
  reactor := ((entries.find? fun entry => entry.object = record.object).map
    SymbolEntry.description).getD SymbolTable.noDescription
  reaction := record.reaction
  worker := record.worker
  elapsedLogical := record.logicalTime - startTime
  microstep := record.microstep
  elapsedPhysical := record.physicalTime - startTime

theorem Decoder.rowOf_eq {d : Decoder} {entries : List SymbolEntry}
    (h : d.header.symbols = SymbolTable.ofList entries) (raw : RawRecord) :
    d.rowOf raw = (Record.ofRaw raw).row d.eventNames d.header.startTime entries := by
  rw [rowOf, h, SymbolTable.describe, SymbolTable.get?_ofList]
  rfl

/-- The decoder of the body behind this header. -/
def Config.decoder (config : Config) (header : Header) : Decoder :=
  ⟨header, config.eventNames, config.batchCapacity⟩

namespace StoredTrace

def records (t : StoredTrace) : List StoredRecord := t.batches.flatMap StoredBatch.records

def decoder (t : StoredTrace) (config : Config) : Decoder := config.decoder t.header.header

/-- The rows of all records. -/
def rows (t : StoredTrace) (config : Config) : List Row :=
  t.records.map fun r => (t.decoder config).rowOf r.raw

theorem rows_eq (t : StoredTrace) (config : Config) :
    t.rows config = t.records.map fun r =>
      r.record.row config.eventNames t.header.startTime (t.header.entries.map StoredEntry.entry) := by
  refine List.map_congr_left fun r _ => ?_
  rw [← r.ofRaw_raw]
  exact Decoder.rowOf_eq rfl r.raw

/-- The limits that a configuration sets to traces. -/
structure Accepted (config : Config) (t : StoredTrace) : Prop where
  objects_le : t.header.entries.length ≤ config.maxObjects
  counts_le : ∀ b ∈ t.batches, b.records.length ≤ config.batchCapacity
  known : ∀ b ∈ t.batches, ∀ r ∈ b.records, config.eventNames.Knows r.record.eventType

theorem Accepted.accepts {config : Config} {t : StoredTrace} (ht : t.Accepted config) :
    ∀ b ∈ t.batches, (t.decoder config).Accepts b := by
  intro b hb
  refine ⟨ht.counts_le b hb, fun raw hraw => ?_⟩
  obtain ⟨r, hr, rfl⟩ := List.mem_map.1 hraw
  exact ht.known b hb r hr

theorem accepted_of_accepts {config : Config} {t : StoredTrace}
    (hlimit : t.header.entries.length ≤ config.maxObjects)
    (h : ∀ b ∈ t.batches, (t.decoder config).Accepts b) : t.Accepted config where
  objects_le := hlimit
  counts_le b hb := (h b hb).count_le
  known b hb r hr := (h b hb).known r.raw (List.mem_map.2 ⟨r, hr, rfl⟩)

theorem flatMap_raws (t : StoredTrace) :
    t.batches.flatMap StoredBatch.raws = t.records.map StoredRecord.raw := by
  unfold records StoredBatch.raws
  rw [List.map_flatMap]

theorem map_raws (t : StoredTrace) (config : Config) :
    (t.batches.flatMap StoredBatch.raws).map (t.decoder config).rowOf = t.rows config := by
  rw [flatMap_raws, List.map_map]
  rfl

theorem length_bytes (t : StoredTrace) :
    t.bytes.length = t.header.bytes.length + 4 * t.batches.length + 48 * t.records.length := by
  have h : (t.batches.flatMap StoredBatch.bytes).length =
      4 * t.batches.length + 48 * t.records.length := by
    unfold records
    induction t.batches with
    | nil => rfl
    | cons b batches ih =>
      simp only [List.flatMap_cons, List.length_append, List.length_cons, b.length_bytes, ih,
        RawRecord.size]
      omega
  rw [bytes, List.length_append, h, Nat.add_assoc]

end StoredTrace

theorem convert_of_read_error {config : Config} {source source' : Source} {fault : Fault}
    (h : Header.read config.maxObjects source = (.error fault, source')) (out : Output σ) (s : σ) :
    convert config out source s = ⟨.error fault, "", source', s⟩ := by
  rw [convert, h]

theorem convert_of_title_error {config : Config} {out : Output σ} {source source' : Source}
    {header : Header} (h : Header.read config.maxObjects source = (.ok header, source')) {s s' : σ}
    {fault : Fault} (htitle : out.title s = (.error fault, s')) :
    convert config out source s =
      ⟨.error fault, if config.dump then header.dump else "", source', s'⟩ := by
  rw [convert, h]
  dsimp only
  rw [htitle]

theorem convert_eq_body {config : Config} {out : Output σ} {source source' : Source} {header : Header}
    (h : Header.read config.maxObjects source = (.ok header, source')) {s s' : σ}
    (htitle : out.title s = (.ok (), s')) :
    convert config out source s =
      let body := convertBody (config.decoder header) out source' s'
      ⟨body.1, if config.dump then header.dump else "", body.2.source, body.2.output⟩ := by
  rw [convert, h]
  dsimp only
  rw [htitle]
  rfl

/-- Once the column names are written, conversion is decoding and a flush. -/
theorem convert_of_title_ok {config : Config} {out : Output σ} {source source' : Source}
    {header : Header} (h : Header.read config.maxObjects source = (.ok header, source')) {s s' : σ}
    (htitle : out.title s = (.ok (), s')) :
    let v : Standing σ := ⟨source'.rest, source'.ending, ⟨0, 0⟩, s'⟩
    let body := v.all (config.decoder header) out
    let flushed := out.flush body.2.output
    let outcome := convert config out source s
    outcome.result = (match body.1 with
      | .error fault => .error fault
      | .ok totals => flushed.1.map fun _ =>
        ⟨header.startTime, header.symbols.size, totals.batches, totals.records⟩) ∧
    outcome.printed = (if config.dump then header.dump else "") ∧
    outcome.source.rest = body.2.rest ∧ outcome.output = flushed.2 := by
  have hall := (config.decoder header).all_standing out (.start source' s')
  dsimp only
  rw [convert_eq_body h htitle, show (⟨source'.rest, source'.ending, ⟨0, 0⟩, s'⟩ : Standing σ) =
    (Decoding.start source' s').standing from rfl, hall, convertBody]
  cases (config.decoder header).all out (.start source' s') with
  | mk result st => cases result <;> exact ⟨rfl, rfl, rfl, rfl⟩

/-- With an output that never fails, the result is that of the decoding. -/
theorem convert_of_read_ok {config : Config} {out : Output σ} (hout : out.NeverFails)
    {source source' : Source} {header : Header}
    (h : Header.read config.maxObjects source = (.ok header, source')) (s : σ) :
    let v : Standing σ := ⟨source'.rest, source'.ending, ⟨0, 0⟩, out.call s .title⟩
    let body := v.all (config.decoder header) out
    let outcome := convert config out source s
    outcome.result = (body.1.map fun totals =>
      ⟨header.startTime, header.symbols.size, totals.batches, totals.records⟩) ∧
    outcome.source.rest = body.2.rest ∧ outcome.output = out.call body.2.output .flush := by
  obtain ⟨hresult, -, hrest, houtput⟩ := convert_of_title_ok h (hout.title_eq s)
  refine ⟨hresult.trans ?_, hrest, houtput⟩
  rw [hout.flush]
  split <;> simp [*, Except.map]

/-- Conversion behind the accepted batches at the front of a byte string. -/
theorem convert_behind {config : Config} {out : Output σ} (hout : out.NeverFails) {t : StoredTrace}
    (ht : t.Accepted config) {source : Source} {rest : List UInt8}
    (hrest : source.rest = t.bytes ++ rest) (s : σ) :
    let v : Standing σ := ⟨rest, source.ending, ⟨t.batches.length, t.records.length⟩,
      out.calls (.title :: (t.rows config).map .row) s⟩
    let body := v.all (t.decoder config) out
    let outcome := convert config out source s
    outcome.result = (body.1.map fun totals => ⟨t.header.startTime, t.header.entries.length,
      totals.batches, totals.records⟩) ∧
    outcome.source.rest = body.2.rest ∧ outcome.output = out.call body.2.output .flush := by
  rw [StoredTrace.bytes, List.append_assoc] at hrest
  obtain ⟨hread, hbody, hending⟩ := (Header.reads_header t.header ht.objects_le).whole source _ hrest
  have hconvert := convert_of_read_ok hout (Prod.ext hread rfl) s
  have hall := Standing.all_behind hout ht.accepts
    (v := ⟨_, source.ending, ⟨0, 0⟩, out.call s .title⟩) hbody
  have hbehind (r : List UInt8) :
      (⟨r, source.ending, ⟨0, 0⟩, out.call s .title⟩ : Standing σ).behind (t.decoder config) out
        t.batches rest = ⟨rest, source.ending, ⟨t.batches.length, t.records.length⟩,
          out.calls (.title :: (t.rows config).map .row) s⟩ := by
    rw [Standing.behind, t.map_raws config, Nat.zero_add, Nat.zero_add]
    rfl
  rw [hbehind] at hall
  rw [hending, t.header.size_symbols] at hconvert
  dsimp only at hconvert ⊢
  rwa [← hall]

/-- A stored trace within the limits is converted. -/
theorem convert_stored {config : Config} {out : Output σ} (hout : out.NeverFails) {t : StoredTrace}
    (ht : t.Accepted config) (delivery : Delivery) (s : σ) :
    let outcome := convert config out (.ofBytes t.bytes .endOfFile delivery) s
    outcome.result = .ok ⟨t.header.startTime, t.header.entries.length, t.batches.length,
      t.records.length⟩ ∧
    outcome.source.rest = [] ∧
    outcome.output = out.calls (.title :: ((t.rows config).map .row ++ [.flush])) s := by
  have hsource : (Source.ofBytes t.bytes .endOfFile delivery).rest = t.bytes ++ [] :=
    (List.append_nil _).symm
  have hconvert := convert_behind hout ht hsource s
  dsimp only at hconvert ⊢
  rw [Standing.all_of_nil rfl rfl] at hconvert
  obtain ⟨hresult, hrest, houtput⟩ := hconvert
  refine ⟨hresult, hrest, ?_⟩
  rw [houtput, Output.call_calls, List.cons_append]

/-- Whatever is converted is a stored trace within the limits. -/
theorem exists_of_convert_eq_ok {config : Config} {out : Output σ} (hout : out.NeverFails)
    {source : Source} {s : σ} {summary : Summary}
    (h : (convert config out source s).result = .ok summary) :
    ∃ t : StoredTrace, t.Accepted config ∧ source.rest = t.bytes := by
  cases hread : Header.read config.maxObjects source with
  | mk result source' =>
    cases result with
    | error fault =>
      rw [convert_of_read_error hread] at h
      simp at h
    | ok header =>
      obtain ⟨stored, hlimit, hrest, rfl, -⟩ := Header.exists_of_read_eq_ok hread
      rw [(convert_of_read_ok hout hread s).1] at h
      generalize hv : (⟨source'.rest, source'.ending, ⟨0, 0⟩, out.call s .title⟩ : Standing σ) = v at h
      cases hall : v.all (config.decoder stored.header) out with
      | mk result v' =>
        rw [hall] at h
        cases result with
        | error fault => simp [Except.map] at h
        | ok totals =>
          obtain ⟨batches, hbatches, hbytes⟩ := Standing.exists_of_all_eq_ok hall
          refine ⟨⟨stored, batches⟩, StoredTrace.accepted_of_accepts hlimit hbatches, ?_⟩
          rw [hrest, StoredTrace.bytes, ← hbytes, ← hv]

/-- A byte string is converted without a fault exactly when it is a stored trace within the limits. It
is then stored from this trace alone, and conversion takes all of it, counts its objects, batches and
records, and writes one row for each record. -/
theorem convert_accepts (config : Config) {out : Output σ} (hout : out.NeverFails)
    (bytes : List UInt8) (delivery : Delivery) (s : σ) :
    let outcome := convert config out (.ofBytes bytes .endOfFile delivery) s
    ((∃ summary, outcome.result = .ok summary) ↔
      ∃ t : StoredTrace, t.Accepted config ∧ bytes = t.bytes) ∧
    ∀ summary, outcome.result = .ok summary →
      ∃ t : StoredTrace, t.Accepted config ∧ bytes = t.bytes ∧
        (∀ t' : StoredTrace, bytes = t'.bytes → t' = t) ∧
        summary = ⟨t.header.startTime, t.header.entries.length, t.batches.length,
          t.records.length⟩ ∧
        (t.rows config).length = summary.records ∧
        outcome.output = out.calls (.title :: ((t.rows config).map .row ++ [.flush])) s ∧
        outcome.source.rest = [] ∧
        bytes.length = t.header.bytes.length + 4 * summary.batches + 48 * summary.records := by
  intro outcome
  constructor
  · constructor
    · rintro ⟨summary, h⟩
      exact exists_of_convert_eq_ok hout h
    · rintro ⟨t, ht, rfl⟩
      exact ⟨_, (convert_stored hout ht delivery s).1⟩
  · intro summary h
    obtain ⟨t, ht, hbytes⟩ := exists_of_convert_eq_ok hout h
    replace hbytes : bytes = t.bytes := hbytes
    obtain ⟨hresult, hrest, houtput⟩ := convert_stored hout ht delivery s
    rw [← hbytes] at hresult hrest houtput
    obtain rfl : summary = _ := Except.ok.inj (h.symm.trans hresult)
    refine ⟨t, ht, hbytes, ?_, rfl, List.length_map .., houtput, hrest, ?_⟩
    · intro t' ht'
      exact StoredTrace.bytes_inj (ht'.symm.trans hbytes)
    · rw [hbytes, t.length_bytes]

/-- One object, and one record of it. The bytes of the padding are not zero. -/
theorem convert_accepts_one_record :
    let header : List UInt8 := [232, 3, 0, 0, 0, 0, 0, 0, 1, 0, 0, 0, 80, 0, 0, 0, 0, 0, 0, 0, 82, 49, 0]
    let record : List UInt8 := [1, 0, 0, 0, 7, 7, 7, 7, 80, 0, 0, 0, 0, 0, 0, 0, 2, 0, 0, 0, 3, 0, 0, 0,
      220, 5, 0, 0, 0, 0, 0, 0, 4, 0, 0, 0, 9, 9, 9, 9, 208, 7, 0, 0, 0, 0, 0, 0]
    let outcome := convert .standard (Recording.output .none)
      (.plain (header ++ [1, 0, 0, 0] ++ record)) .empty
    (Recording.output .none).NeverFails ∧ outcome.result = .ok ⟨1000, 1, 1, 1⟩ ∧
      outcome.output.calls = #[.title, .row ⟨"Reaction ends", "R1", some 2, 3, 500, 4, 1000⟩, .flush] ∧
      outcome.source.rest = [] := by
  intro header record outcome
  let e : StoredEntry := ⟨⟨80⟩, [82, 49], 0, by simp, by decide, .inl rfl⟩
  let t : StoredTrace := ⟨⟨1000, [e], by decide⟩, [⟨[⟨record, rfl⟩], by decide⟩]⟩
  have ht : t.Accepted .standard := ⟨by decide, by decide, by decide⟩
  have hbytes : header ++ [1, 0, 0, 0] ++ record = t.bytes := by decide
  obtain ⟨hiff, hsummary⟩ := convert_accepts .standard Recording.neverFails
    (header ++ [1, 0, 0, 0] ++ record) .prompt .empty
  obtain ⟨summary, hresult⟩ := hiff.2 ⟨t, ht, hbytes⟩
  obtain ⟨t', -, -, hunique, rfl, -, houtput, hrest, -⟩ := hsummary summary hresult
  obtain rfl := hunique t hbytes
  have hentry : e.entry = ⟨⟨80⟩, "R1"⟩ := StoredEntry.entry_eq rfl
  have hrows : t.rows .standard = [⟨"Reaction ends", "R1", some 2, 3, 500, 4, 1000⟩] := by
    rw [t.rows_eq, show t.header.entries.map StoredEntry.entry = [e.entry] from rfl, hentry]
    decide
  rw [hrows] at houtput
  exact ⟨Recording.neverFails, hresult, congrArg Recording.calls houtput, hrest⟩

end ReactorTrace
