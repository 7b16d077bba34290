import ReactorTrace.Proofs.LossyText
import ReactorTrace.Proofs.RoundTrip

/-! Headers written and read back. Every header that can be written is written, but it comes back, with
all that follows it left unread, exactly if its descriptions fit (`read_encodeHeader`). A table with a
description that does not fit never comes back by accident: lossy text is no shorter than the bytes that
it is read from, so that no entry can take less than it was written with and none can make up for
another. For the same reason a header that was read is written with its own bytes exactly if each of its
entries is (`encodeHeader_of_read`). -/

namespace ReactorTrace

theorem StoredEntry.length_bytes (e : StoredEntry) :
    e.bytes.length = e.description.length + 9 := by
  simp [bytes, ObjectId.width]
  omega

namespace Encoder

theorem length_encodeEntry (entry : SymbolEntry) :
    (encodeEntry entry).length = (Text.Utf8.encode entry.description).length + 9 := by
  simp [encodeEntry, ObjectId.width]
  omega

/-- Entries are no longer stored than they are written again. -/
theorem length_bytes_le (e : StoredEntry) : e.bytes.length ≤ (encodeEntry e.entry).length := by
  have hdescription : e.description.length ≤ (Text.Utf8.encode e.entry.description).length :=
    Text.Utf8.length_le_encode_decodeLossy e.description
  rw [e.length_bytes, length_encodeEntry]
  omega

theorem length_flatMap_bytes_le (stored : List StoredEntry) :
    (stored.flatMap StoredEntry.bytes).length ≤
      ((stored.map StoredEntry.entry).flatMap encodeEntry).length := by
  induction stored with
  | nil => exact Nat.le_refl _
  | cons e stored ih =>
    simp only [List.map_cons, List.flatMap_cons, List.length_append]
    exact Nat.add_le_add (length_bytes_le e) ih

/-- Entries that are as long together are as long one by one. -/
theorem length_encodeEntry_eq {stored : List StoredEntry}
    (h : (stored.flatMap StoredEntry.bytes).length =
      ((stored.map StoredEntry.entry).flatMap encodeEntry).length) :
    ∀ e ∈ stored, (encodeEntry e.entry).length = e.bytes.length := by
  induction stored with
  | nil => simp
  | cons e stored ih =>
    simp only [List.map_cons, List.flatMap_cons, List.length_append] at h
    have hfirst := length_bytes_le e
    have hmore := length_flatMap_bytes_le stored
    exact List.forall_mem_cons.2 ⟨by omega, ih (by omega)⟩

/-- An entry that is as long when it is written again fits. -/
theorem storable_entry {e : StoredEntry} (h : (encodeEntry e.entry).length = e.bytes.length) :
    e.entry.Storable where
  size_le := by
    rw [length_encodeEntry, e.length_bytes, Nat.add_right_cancel_iff, Text.Utf8.length_encode] at h
    rw [h]
    exact e.length_le
  no_zero := Text.Utf8.zero_not_mem_decodeLossy e.nonzero

/-- A header with an accepted number of objects is written. Reading it gives the same start time and the
same entries in the same order, and leaves exactly what follows it, if and only if each description has
no zero character and no more bytes than the longest one. -/
theorem read_encodeHeader (startTime : Int64) {entries : List SymbolEntry} {limit : Nat}
    (hmax : entries.length ≤ maxCount) (hlimit : entries.length ≤ limit) :
    ∃ bytes, encodeHeader startTime entries = .ok bytes ∧
      ∀ (suffix : List UInt8) (ending : Ending) (delivery : Delivery),
        (∃ header body,
          Header.read limit (.ofBytes (bytes ++ suffix) ending delivery) = (.ok header, body) ∧
          header.startTime = startTime ∧ header.symbols.toList = entries ∧ body.rest = suffix) ↔
        ∀ entry ∈ entries, entry.Storable := by
  refine ⟨_, if_pos hmax, fun suffix ending delivery => ⟨?_, fun h => ?_⟩⟩
  · rintro ⟨header, body, hread, -, hentries, hrest⟩
    obtain ⟨stored, -, hbytes, rfl, -⟩ := Header.exists_of_read_eq_ok hread
    replace hbytes : _ ++ suffix = stored.bytes ++ body.rest := hbytes
    rw [hrest, List.append_cancel_right_eq] at hbytes
    rw [StoredHeader.header, SymbolTable.toList_ofList] at hentries
    have hlength := congrArg List.length hbytes
    simp only [StoredHeader.bytes, List.length_append, LittleEndian.length_encodeInt64,
      LittleEndian.length_encode, ← hentries] at hlength
    rw [← hentries]
    intro entry hentry
    obtain ⟨e, he, rfl⟩ := List.mem_map.1 hentry
    exact storable_entry (length_encodeEntry_eq (by omega) e he)
  · obtain ⟨stored, hencode, rfl, rfl⟩ := exists_storedHeader startTime hmax h
    rw [List.length_map] at hlimit
    rw [encodeHeader, if_pos hmax] at hencode
    rw [Except.ok.inj hencode]
    obtain ⟨hread, hrest, -⟩ := (Header.reads_header stored hlimit).whole
      (.ofBytes (stored.bytes ++ suffix) ending delivery) suffix rfl
    refine ⟨_, _, Prod.ext hread rfl, rfl, ?_, hrest⟩
    exact SymbolTable.toList_ofList _

/-- A description of 1022 letters and a replacement character, two bytes too long. The cut after 1023
bytes leaves an ill-formed part that is read as that very character, but the header still does not come
back. -/
theorem read_encodeHeader_cut_replacement :
    let description := String.ofList (List.replicate 1022 'r' ++ [Text.Utf8.replacement])
    let entries : List SymbolEntry := [⟨⟨1⟩, description⟩]
    entries.length ≤ maxCount ∧ entries.length ≤ Header.objectLimit ∧
      ∃ bytes, encodeHeader 0 entries = .ok bytes ∧ ∀ suffix : List UInt8, ¬ ∃ header body,
        Header.read Header.objectLimit (.plain (bytes ++ suffix)) = (.ok header, body) ∧
        header.startTime = 0 ∧ header.symbols.toList = entries ∧ body.rest = suffix := by
  intro description entries
  have hmax : entries.length ≤ maxCount := by decide
  have hlimit : entries.length ≤ Header.objectLimit := by decide
  obtain ⟨bytes, hencode, hread⟩ := read_encodeHeader 0 hmax hlimit
  refine ⟨hmax, hlimit, bytes, hencode, fun suffix h => ?_⟩
  have hstorable := (hread suffix .endOfFile .prompt).1 h _ (List.mem_singleton.2 rfl)
  have hsize : description.utf8ByteSize = 1025 := by
    rw [← Text.Utf8.length_encode, Text.Utf8.encode, String.toList_ofList, List.flatMap_append,
      List.length_append, List.length_flatMap, List.map_replicate, List.sum_replicate_nat]
    rfl
  have hle : description.utf8ByteSize ≤ 1023 := hstorable.size_le
  omega

end Encoder

/-! ### Headers read and written again -/

/-- The stored text is well-formed, and a zero byte stops it. -/
structure StoredEntry.Canonical (e : StoredEntry) : Prop where
  wellFormed : e.description.toByteArray.IsValidUTF8
  stop_eq_zero : e.stop = 0

theorem StoredHeader.toList_symbols (h : StoredHeader) :
    h.header.symbols.toList = h.entries.map StoredEntry.entry := SymbolTable.toList_ofList _

namespace Encoder

theorem encodeEntry_eq_iff (e : StoredEntry) : encodeEntry e.entry = e.bytes ↔ e.Canonical := by
  have hwritten : encodeEntry e.entry = e.object.toBytes ++
      (Text.Utf8.encode (Text.Utf8.decodeLossy e.description) ++ [0]) := List.append_assoc ..
  rw [hwritten, StoredEntry.bytes, List.append_cancel_left_eq]
  constructor
  · intro h
    obtain ⟨hdescription, hstop⟩ := List.append_inj' h rfl
    exact ⟨(Text.Utf8.encode_decodeLossy_eq_iff _).1 hdescription,
      (List.singleton_inj.1 hstop).symm⟩
  · rintro ⟨hdescription, hstop⟩
    rw [(Text.Utf8.encode_decodeLossy_eq_iff _).2 hdescription, hstop]

/-- Entries that are written with the bytes they were read from are so one by one: none is written
shorter, so that none can make up for another. -/
theorem flatMap_encodeEntry_eq_iff (stored : List StoredEntry) :
    (stored.map StoredEntry.entry).flatMap encodeEntry = stored.flatMap StoredEntry.bytes ↔
      ∀ e ∈ stored, e.Canonical := by
  constructor
  · intro h
    have hlength := length_encodeEntry_eq (congrArg List.length h.symm)
    induction stored with
    | nil => simp
    | cons e stored ih =>
      obtain ⟨hfirst, hmore⟩ := List.forall_mem_cons.1 hlength
      rw [List.map_cons, List.flatMap_cons, List.flatMap_cons] at h
      obtain ⟨hentry, hentries⟩ := List.append_inj h hfirst
      exact List.forall_mem_cons.2 ⟨(encodeEntry_eq_iff e).1 hentry, ih hentries hmore⟩
  · intro h
    have hmap : stored.map (fun e => encodeEntry e.entry) = stored.map StoredEntry.bytes :=
      List.map_congr_left fun e he => (encodeEntry_eq_iff e).2 (h e he)
    rw [List.flatMap_map, List.flatMap_def, hmap, ← List.flatMap_def]

/-- The header that is read takes the bytes of one stored header off the stream. Writing its start time
and its entries again gives these very bytes if and only if the text of each entry is well-formed and
stopped by a zero byte. -/
theorem encodeHeader_of_read {limit : Nat} {bytes : List UInt8} {ending : Ending}
    {delivery : Delivery} {header : Header} {body : Source}
    (hread : Header.read limit (.ofBytes bytes ending delivery) = (.ok header, body)) :
    ∃ stored : StoredHeader, bytes = stored.bytes ++ body.rest ∧
      (∀ (other : StoredHeader) (rest : List UInt8), bytes = other.bytes ++ rest → other = stored) ∧
      header.startTime = stored.startTime ∧
      header.symbols.toList = stored.entries.map StoredEntry.entry ∧
      (encodeHeader header.startTime header.symbols.toList = .ok stored.bytes ↔
        ∀ e ∈ stored.entries, e.Canonical) := by
  obtain ⟨stored, -, hbytes, rfl, -⟩ := Header.exists_of_read_eq_ok hread
  replace hbytes : bytes = stored.bytes ++ body.rest := hbytes
  refine ⟨stored, hbytes, ?_, rfl, stored.toList_symbols, ?_⟩
  · intro other rest hother
    exact (StoredHeader.bytes_inj (hother.symm.trans hbytes)).1
  · have hcount : (stored.entries.map StoredEntry.entry).length = stored.entries.length :=
      List.length_map ..
    have hstart : stored.header.startTime = stored.startTime := rfl
    rw [stored.toList_symbols, hstart, encodeHeader, if_pos (hcount ▸ stored.count_le), hcount,
      Except.ok.injEq, StoredHeader.bytes, ← List.append_assoc, List.append_cancel_left_eq]
    exact flatMap_encodeEntry_eq_iff stored.entries

/-- A text that breaks off within a character of four bytes. The replacement character has as many
bytes as there are of that character, so that the header is written in its old length, but not with its
old bytes. -/
theorem encodeHeader_of_read_same_length :
    let bytes : List UInt8 :=
      [0, 0, 0, 0, 0, 0, 0, 0, 1, 0, 0, 0, 7, 0, 0, 0, 0, 0, 0, 0, 0xF0, 0x9F, 0x98, 0]
    ∃ header body, Header.read Header.objectLimit (.plain bytes) = (.ok header, body) ∧
      body.rest = [] ∧ ∃ written, encodeHeader header.startTime header.symbols.toList = .ok written ∧
        written.length = bytes.length ∧ written ≠ bytes := by
  intro bytes
  let e : StoredEntry := ⟨⟨7⟩, [0xF0, 0x9F, 0x98], 0, by simp, by decide, .inl rfl⟩
  let stored : StoredHeader := ⟨0, [e], by decide⟩
  have hbytes : bytes = stored.bytes := by decide
  have hlimit : stored.entries.length ≤ Header.objectLimit := by decide
  have hsource : bytes = stored.bytes ++ [] := by rw [List.append_nil, hbytes]
  obtain ⟨hresult, hrest, -⟩ := (Header.reads_header stored hlimit).whole (.plain bytes) [] hsource
  obtain ⟨body, hread, hrest⟩ : ∃ body,
      Header.read Header.objectLimit (.plain bytes) = (.ok stored.header, body) ∧ body.rest = [] :=
    ⟨_, Prod.ext hresult rfl, hrest⟩
  obtain ⟨stored', -, hunique, -, -, hiff⟩ := encodeHeader_of_read hread
  obtain rfl : stored = stored' := hunique stored [] hsource
  have hcut : Text.Utf8.decodeLossy e.description = String.push "" Text.Utf8.replacement :=
    Text.Utf8.decodeLossy_cut "" '😀' (by decide : 0 < 3) (by decide)
  have hlossy : Text.Utf8.encode (Text.Utf8.decodeLossy e.description) = [0xEF, 0xBF, 0xBD] := by
    rw [hcut]
    decide
  refine ⟨_, _, hread, hrest, _, rfl, ?_, ?_⟩
  · have hentry : (encodeEntry e.entry).length = 12 :=
      (length_encodeEntry e.entry).trans (congrArg (List.length · + 9) hlossy)
    rw [stored.toList_symbols, List.length_append]
    exact congrArg (12 + ·) ((congrArg List.length (List.append_nil _)).trans hentry)
  · intro hwritten
    rw [hbytes] at hwritten
    have hcanonical := hiff.1 (congrArg Except.ok hwritten) e (List.mem_singleton.2 rfl)
    have hsame := (Text.Utf8.encode_decodeLossy_eq_iff e.description).2 hcanonical.wellFormed
    rw [hlossy] at hsame
    exact absurd hsame (by decide)

end Encoder

end ReactorTrace
