import Mathlib.Data.List.Nodup
import ReactorTrace.Proofs.RowText
import ReactorTrace.Proofs.TableLines
import ReactorTrace.Proofs.Utf8

/-! Records read back from the table. If the names of event types are pairwise different, no two traced
objects in the records are described alike, and all these texts fit into a row, then no two bodies behind
one header have the same table unless their records are the same (`decoded_of_toTable`). How these are put
into batches does not show. -/

namespace ReactorTrace

namespace EventNames

variable {table : EventNames} {eventType eventType' : Int32}

theorem Knows.exists_index (h : table.Knows eventType) :
    ∃ hlt : eventType.toInt.toNat < table.names.length,
      table.name eventType = table.names[eventType.toInt.toNat] := by
  obtain ⟨hpos, hsize⟩ := h
  have hlt : eventType.toInt.toNat < table.names.length := by
    unfold size at hsize
    omega
  exact ⟨hlt, by rw [name, List.getD_eq_getElem?_getD, List.getElem?_eq_getElem hlt, Option.getD_some]⟩

theorem Knows.name_mem (h : table.Knows eventType) : table.name eventType ∈ table.names := by
  obtain ⟨hlt, hname⟩ := h.exists_index
  rw [hname]
  exact List.getElem_mem hlt

/-- Among different names, a name belongs to one event type. -/
theorem name_inj (hnodup : table.names.Nodup) (h : table.Knows eventType)
    (h' : table.Knows eventType') (hname : table.name eventType = table.name eventType') :
    eventType = eventType' := by
  obtain ⟨hlt, hindex⟩ := h.exists_index
  obtain ⟨hlt', hindex'⟩ := h'.exists_index
  rw [hindex, hindex', hnodup.getElem_inj_iff] at hname
  have hpos := h.1
  have hpos' := h'.1
  exact Int32.toInt_inj.1 (by omega)

theorem fits_standard : ∀ name ∈ standard.names, Row.Fits name := by
  decide +kernel

end EventNames

/-- A traced object is described as one of the entries is. -/
theorem SymbolTable.exists_description {entries : List SymbolEntry} {object : ObjectId}
    (h : ∃ entry ∈ entries, entry.object = object) :
    ∃ entry ∈ entries, (ofList entries).describe object = entry.description := by
  have hsome : (entries.find? fun entry => entry.object = object).isSome := by
    obtain ⟨entry, hentry, hobject⟩ := h
    exact List.find?_isSome.2 ⟨entry, hentry, by simpa using hobject⟩
  obtain ⟨entry, hfind⟩ := Option.isSome_iff_exists.1 hsome
  exact ⟨entry, List.mem_of_find?_eq_some hfind, by rw [describe, get?_ofList, hfind]; rfl⟩

/-- A row determines the record, as far as names and descriptions tell event types and objects apart. -/
theorem Decoder.ofRaw_of_rowOf {d : Decoder} (hnodup : d.eventNames.names.Nodup) {raw raw' : RawRecord}
    (hknown : d.eventNames.Knows raw.eventType) (hknown' : d.eventNames.Knows raw'.eventType)
    (hdescribe : d.header.symbols.describe raw.object = d.header.symbols.describe raw'.object →
      raw.object = raw'.object)
    (h : d.rowOf raw = d.rowOf raw') : Record.ofRaw raw = Record.ofRaw raw' := by
  simp only [rowOf, Row.ofRecord, Record.elapsedLogical, Record.elapsedPhysical, Row.mk.injEq,
    Int64.sub_left_inj] at h
  obtain ⟨hevent, hreactor, hreaction, hworker, hlogical, hmicrostep, hphysical⟩ := h
  have htype : (Record.ofRaw raw).eventType = (Record.ofRaw raw').eventType :=
    EventNames.name_inj hnodup hknown hknown' hevent
  have hobject : (Record.ofRaw raw).object = (Record.ofRaw raw').object := hdescribe hreactor
  cases hrecord : Record.ofRaw raw
  cases hrecord' : Record.ofRaw raw'
  simp_all

theorem Decoder.map_ofRaw_of_rowOf {d : Decoder} (hnodup : d.eventNames.names.Nodup)
    {raws raws' : List RawRecord} (hknown : ∀ raw ∈ raws, d.eventNames.Knows raw.eventType)
    (hknown' : ∀ raw ∈ raws', d.eventNames.Knows raw.eventType)
    (hdescribe : ∀ raw ∈ raws, ∀ raw' ∈ raws',
      d.header.symbols.describe raw.object = d.header.symbols.describe raw'.object →
        raw.object = raw'.object)
    (h : raws.map d.rowOf = raws'.map d.rowOf) : raws.map Record.ofRaw = raws'.map Record.ofRaw := by
  induction raws generalizing raws' with
  | nil => rw [List.map_eq_nil_iff.1 h.symm]
  | cons raw raws ih =>
    obtain ⟨raw', raws', rfl, hrow, hrows⟩ := List.map_eq_cons_iff.1 h.symm
    obtain ⟨hraw, hmore⟩ := List.forall_mem_cons.1 hknown
    obtain ⟨hraw', hmore'⟩ := List.forall_mem_cons.1 hknown'
    have hfirst := ofRaw_of_rowOf hnodup hraw hraw'
      (hdescribe raw List.mem_cons_self raw' List.mem_cons_self) hrow.symm
    have hothers := ih hmore hmore' (fun a ha b hb =>
      hdescribe a (List.mem_cons_of_mem _ ha) b (List.mem_cons_of_mem _ hb)) hrows.symm
    rw [List.map_cons, List.map_cons, hfirst, hothers]

namespace StoredTrace

/-- The records of all batches, as they are decoded. -/
def decoded (t : StoredTrace) : List Record := t.records.map StoredRecord.record

theorem map_ofRaw (t : StoredTrace) : (t.records.map StoredRecord.raw).map Record.ofRaw = t.decoded := by
  rw [List.map_map]
  exact List.map_congr_left fun r _ => r.ofRaw_raw

/-- Conversion of the trace to a table. -/
def toTable (config : Config) (delivery : Delivery) (t : StoredTrace) : Outcome TableText :=
  convert config TableText.output (.ofBytes t.bytes .endOfFile delivery) (.empty none)

variable {config : Config} {delivery : Delivery} {t : StoredTrace}

theorem text_toTable (ht : t.Accepted config) : (t.toTable config delivery).output.text =
    Row.title ++ "\n" ++ String.join ((t.rows config).map fun r => r.render ++ "\n") := by
  obtain ⟨-, -, houtput⟩ := convert_stored Recording.neverFails ht delivery .empty
  rw [toTable, (convert_table config _).2.2, Config.calls_eq houtput, TableText.lines_conversion]

theorem accepted_of_toTable {summary : Summary} (h : (t.toTable config delivery).result = .ok summary) :
    t.Accepted config := by
  rw [toTable, (convert_table config _).1] at h
  obtain ⟨t', ht', hbytes⟩ := exists_of_convert_eq_ok Recording.neverFails h
  exact bytes_inj hbytes ▸ ht'

theorem Accepted.knows (ht : t.Accepted config) :
    ∀ raw ∈ t.records.map StoredRecord.raw, config.eventNames.Knows raw.eventType := by
  intro raw hraw
  obtain ⟨r, hr, rfl⟩ := List.mem_map.1 hraw
  obtain ⟨b, hb, hrb⟩ := List.mem_flatMap.1 hr
  exact ht.known b hb r hrb

theorem Accepted.fitsLine (ht : t.Accepted config)
    (hnames : ∀ name ∈ config.eventNames.names, Row.Fits name)
    (hdescriptions : ∀ entry ∈ t.header.header.symbols.toList, Row.Fits entry.description)
    (htraced : ∀ record ∈ t.decoded, ∃ entry ∈ t.header.header.symbols.toList,
      entry.object = record.object) : ∀ row ∈ t.rows config, row.FitsLine := by
  intro row hrow
  obtain ⟨r, hr, rfl⟩ := List.mem_map.1 hrow
  have hknown := ht.knows r.raw (List.mem_map_of_mem hr)
  have hentry := htraced r.record (List.mem_map_of_mem hr)
  rw [StoredHeader.header, SymbolTable.toList_ofList] at hdescriptions hentry
  obtain ⟨entry, hmem, hdescribe⟩ := SymbolTable.exists_description hentry
  have hreactor : ((t.decoder config).rowOf r.raw).reactor = entry.description := hdescribe
  exact ⟨hnames _ hknown.name_mem, hreactor ▸ hdescriptions entry hmem⟩

end StoredTrace

/-- Two traces with one header that are converted to one table have the same records, however these are
put into batches: if the names of event types are different, all objects in the records are traced and
described differently, and the names and descriptions fit into rows. -/
theorem decoded_of_toTable {config : Config} (hnodup : config.eventNames.names.Nodup)
    (hnames : ∀ name ∈ config.eventNames.names, Row.Fits name) {t t' : StoredTrace}
    (hheader : t'.header = t.header)
    (hdescriptions : ∀ entry ∈ t.header.header.symbols.toList, Row.Fits entry.description)
    {delivery delivery' : Delivery} {summary summary' : Summary}
    (hok : (t.toTable config delivery).result = .ok summary)
    (hok' : (t'.toTable config delivery').result = .ok summary')
    (htraced : ∀ record ∈ t.decoded ++ t'.decoded,
      ∃ entry ∈ t.header.header.symbols.toList, entry.object = record.object)
    (hdescribe : ∀ record ∈ t.decoded ++ t'.decoded, ∀ record' ∈ t.decoded ++ t'.decoded,
      t.header.header.symbols.describe record.object = t.header.header.symbols.describe record'.object →
        record.object = record'.object)
    (htext : (t.toTable config delivery).output.text = (t'.toTable config delivery').output.text) :
    t.decoded = t'.decoded := by
  have ht := StoredTrace.accepted_of_toTable hok
  have ht' := StoredTrace.accepted_of_toTable hok'
  rw [StoredTrace.text_toTable ht, StoredTrace.text_toTable ht'] at htext
  have hrows : t.rows config = t'.rows config := by
    refine Row.eq_of_lines (ht.fitsLine hnames hdescriptions fun record h => ?_)
      (ht'.fitsLine hnames (hheader ▸ hdescriptions) fun record h => ?_)
      ((String.append_right_inj _).1 htext)
    · exact htraced record (List.mem_append_left _ h)
    · rw [hheader]
      exact htraced record (List.mem_append_right _ h)
  have hdecoder : t'.decoder config = t.decoder config := by
    rw [StoredTrace.decoder, StoredTrace.decoder, hheader]
  rw [← t.map_raws, ← t'.map_raws, t.flatMap_raws, t'.flatMap_raws, hdecoder] at hrows
  have hraws := Decoder.map_ofRaw_of_rowOf hnodup ht.knows ht'.knows ?_ hrows
  · rwa [t.map_ofRaw, t'.map_ofRaw] at hraws
  · intro raw hraw raw' hraw' hsame
    obtain ⟨r, hr, rfl⟩ := List.mem_map.1 hraw
    obtain ⟨r', hr', rfl⟩ := List.mem_map.1 hraw'
    exact hdescribe r.record (List.mem_append_left _ (List.mem_map_of_mem hr))
      r'.record (List.mem_append_right _ (List.mem_map_of_mem hr')) hsame

/-- Two equal records of a traced object, in two batches and in one. -/
theorem decoded_of_toTable_other_batches :
    let r : StoredRecord := ⟨List.replicate 48 0, rfl⟩
    let header : StoredHeader := ⟨0, [⟨default, [82], 0, by simp, by decide, .inl rfl⟩], by decide⟩
    let t : StoredTrace := ⟨header, [⟨[r], by decide⟩, ⟨[r], by decide⟩]⟩
    let t' : StoredTrace := ⟨header, [⟨[r, r], by decide⟩]⟩
    (t.toTable .standard .prompt).output.text = (t'.toTable .standard .prompt).output.text ∧
      t.decoded = t'.decoded := by
  intro r header t t'
  have ht : t.Accepted .standard := ⟨by decide, by decide, by decide⟩
  have ht' : t'.Accepted .standard := ⟨by decide, by decide, by decide⟩
  have htext : (t.toTable .standard .prompt).output.text =
      (t'.toTable .standard .prompt).output.text :=
    (StoredTrace.text_toTable ht).trans (StoredTrace.text_toTable ht').symm
  refine ⟨htext, ?_⟩
  have hok {t : StoredTrace} (ht : t.Accepted .standard) :
      ∃ summary, (t.toTable .standard .prompt).result = .ok summary :=
    ⟨_, (convert_table .standard _).1.trans (convert_stored Recording.neverFails ht .prompt .empty).1⟩
  obtain ⟨summary, hsummary⟩ := hok ht
  obtain ⟨summary', hsummary'⟩ := hok ht'
  have hdescription : Text.Utf8.decodeLossy [82] = "R" := Text.Utf8.decodeLossy_encode "R"
  have hentries : t.header.header.symbols.toList = [⟨default, "R"⟩] :=
    (SymbolTable.toList_ofList _).trans (by rw [← hdescription]; rfl)
  have hobjects : ∀ record ∈ t.decoded ++ t'.decoded, record.object = default := by decide
  refine decoded_of_toTable (by decide) EventNames.fits_standard rfl ?_ hsummary hsummary' ?_ ?_ htext
  · rw [hentries]
    decide
  · intro record hrecord
    rw [hentries, hobjects record hrecord]
    exact ⟨_, List.mem_singleton_self _, rfl⟩
  · intro record hrecord record' hrecord' _
    rw [hobjects record hrecord, hobjects record' hrecord']

end ReactorTrace
