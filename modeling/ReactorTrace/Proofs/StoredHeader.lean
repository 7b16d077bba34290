import ReactorTrace.Encoder
import ReactorTrace.Proofs.Reading

/-! The stored form of a header, and what reading makes of it. A description is stored with the byte
that stops it: a zero, or any byte at all behind a description of the longest length. Reading takes
exactly the stored headers with an accepted number of entries (`reads_header`,
`exists_of_read_eq_ok`), and a byte string begins with at most one of them (`StoredHeader.bytes_inj`). -/

namespace ReactorTrace

/-- An entry of the object table as it is stored. -/
@[ext] structure StoredEntry where
  object : ObjectId
  description : List UInt8
  stop : UInt8
  nonzero : ∀ b ∈ description, b ≠ 0
  length_le : description.length ≤ Header.descriptionLimit
  stopped : stop = 0 ∨ description.length = Header.descriptionLimit

namespace StoredEntry

def bytes (e : StoredEntry) : List UInt8 := e.object.toBytes ++ (e.description ++ [e.stop])

/-- The entry that is read. -/
def entry (e : StoredEntry) : SymbolEntry := ⟨e.object, Text.Utf8.decodeLossy e.description⟩

/-- The reads that make up the entry. -/
def fields (e : StoredEntry) : List HeaderField :=
  .objectIdentity :: List.replicate (e.description.length + 1) .objectDescription

end StoredEntry

/-- A header as it is stored. -/
@[ext] structure StoredHeader where
  startTime : Int64
  entries : List StoredEntry
  count_le : entries.length ≤ Encoder.maxCount

namespace StoredHeader

def bytes (h : StoredHeader) : List UInt8 :=
  LittleEndian.encodeInt64 h.startTime ++
    (LittleEndian.encode 4 h.entries.length ++ h.entries.flatMap StoredEntry.bytes)

def header (h : StoredHeader) : Header :=
  ⟨h.startTime, SymbolTable.ofList (h.entries.map StoredEntry.entry)⟩

def fields (h : StoredHeader) : List HeaderField :=
  .startTime :: .objectCount :: h.entries.flatMap StoredEntry.fields

end StoredHeader

namespace Header

/-! ### Stored headers are read -/

theorem reads_descriptionBytes (room : Nat) (bs : List UInt8) (stop : UInt8)
    (hnz : ∀ b ∈ bs, b ≠ 0) (hlen : bs.length ≤ room) (hstop : stop = 0 ∨ bs.length = room) :
    Reads (readDescriptionBytes room) (List.replicate (bs.length + 1) .objectDescription)
      (bs ++ [stop]) bs := by
  induction room generalizing bs with
  | zero =>
    obtain rfl : bs = [] := List.length_eq_zero_iff.1 (by omega)
    exact (reads_readField .objectDescription [stop] rfl).map fun _ => []
  | succ room ih =>
    cases bs with
    | nil =>
      obtain rfl : stop = 0 := by simpa using hstop
      exact (reads_readField .objectDescription [0] rfl).bind (.pure [])
    | cons b bs =>
      have hb : [b] ≠ [0] := by simpa using hnz b (by simp)
      have hrest := ih bs (fun c hc => hnz c (by simp [hc])) (by simpa using hlen)
        (by simpa using hstop)
      have hfield := reads_readField .objectDescription [b] rfl
      refine hfield.bind ?_
      rw [if_neg hb]
      exact hrest.map ([b] ++ ·)

theorem reads_entry (e : StoredEntry) : Reads readEntry e.fields e.bytes e.entry := by
  have hobject := reads_readField .objectIdentity _ e.object.length_toBytes
  have hbytes := reads_descriptionBytes descriptionLimit e.description e.stop e.nonzero e.length_le
    e.stopped
  have hdescription : Reads readDescription _ _ _ := hbytes.map Text.Utf8.decodeLossy
  refine hobject.bind ?_
  rw [ObjectId.ofBytes_toBytes]
  exact hdescription.map (SymbolEntry.mk e.object)

theorem reads_entries (entries : List StoredEntry) (table : SymbolTable) :
    Reads (readEntries entries.length table) (entries.flatMap StoredEntry.fields)
      (entries.flatMap StoredEntry.bytes)
      ((entries.map StoredEntry.entry).foldl
        (fun table entry => table.insert entry.object entry.description) table) := by
  induction entries generalizing table with
  | nil => exact .pure table
  | cons e entries ih => exact (reads_entry e).bind (ih _)

theorem reads_count {limit n : Nat} (hmax : n ≤ Encoder.maxCount) (hlimit : n ≤ limit) :
    Reads (readCount limit) [.objectCount] (LittleEndian.encode 4 n) n := by
  have hint := LittleEndian.toInt_decodeInt32_encode hmax
  have hle := LittleEndian.decodeInt32_encode_nonneg hmax
  refine (reads_readField .objectCount _ (LittleEndian.length_encode 4 n)).bind ?_
  simp only [hint, Int.toNat_natCast]
  rw [if_pos ⟨hle, hlimit⟩]
  exact .pure n

/-- A stored header is read whole, and a stream that stops inside of it stops in one of its reads. -/
theorem reads_header (h : StoredHeader) {limit : Nat} (hlimit : h.entries.length ≤ limit) :
    Reads (read limit) h.fields h.bytes h.header := by
  have hstart := reads_readField .startTime _ (LittleEndian.length_encodeInt64 h.startTime)
  have hcount := reads_count h.count_le hlimit
  have hentries := reads_entries h.entries .empty
  refine hstart.bind (hcount.bind ?_)
  rw [LittleEndian.decodeInt64_encodeInt64]
  exact hentries.map (Header.mk h.startTime)

theorem readCount_of_many {limit n : Nat} (hmax : n ≤ Encoder.maxCount) (hmany : limit < n)
    {source : Source} {rest : List UInt8} (hsource : source.rest = LittleEndian.encode 4 n ++ rest) :
    ∃ body, readCount limit source =
        (.error (.objectCount (LittleEndian.decodeInt32 (LittleEndian.encode 4 n)) limit), body) ∧
      body.rest = rest := by
  have hint := LittleEndian.toInt_decodeInt32_encode hmax
  obtain ⟨hcount, hrest, -⟩ := (reads_readField .objectCount _ (LittleEndian.length_encode 4 n)).whole
    source rest hsource
  refine ⟨(readField .objectCount source).2, ?_, hrest⟩
  rw [readCount, Reading.bind_of_ok hcount]
  generalize LittleEndian.decodeInt32 (LittleEndian.encode 4 n) = count at hint
  have hrefused : ¬ (0 ≤ count ∧ count.toInt.toNat ≤ limit) := by
    rw [hint, Int.toNat_natCast]
    exact fun h => Nat.not_le.2 hmany h.2
  rw [if_neg hrefused, Reading.fail_apply]

/-- More objects than are accepted are refused before any of them is read. -/
theorem read_of_many {limit : Nat} {stored : StoredHeader} (hmany : limit < stored.entries.length)
    {source : Source} {rest : List UInt8} (hsource : source.rest = stored.bytes ++ rest) :
    ∃ body, read limit source = (.error (.objectCount
        (LittleEndian.decodeInt32 (LittleEndian.encode 4 stored.entries.length)) limit), body) ∧
      12 ≤ source.rest.length ∧ body.rest = source.rest.drop 12 := by
  rw [StoredHeader.bytes, List.append_assoc, List.append_assoc] at hsource
  obtain ⟨hstart, hrest, -⟩ := (reads_readField .startTime _
    (LittleEndian.length_encodeInt64 stored.startTime)).whole source _ hsource
  obtain ⟨body, hcount, hbody⟩ := readCount_of_many stored.count_le hmany hrest
  refine ⟨body, ?_, ?_, ?_⟩
  · rw [read, Reading.bind_of_ok hstart, Reading.bind_apply, hcount]
  · rw [hsource, List.length_append, List.length_append, LittleEndian.length_encodeInt64,
      LittleEndian.length_encode]
    omega
  · rw [hbody, hsource, ← List.append_assoc]
    exact (List.drop_left' (by simp)).symm

/-! ### Only stored headers are read -/

theorem descriptionBytes_eq_ok {room : Nat} {s s' : Source} {bs : List UInt8}
    (h : readDescriptionBytes room s = (.ok bs, s')) :
    ∃ stop, s.rest = bs ++ ([stop] ++ s'.rest) ∧ (∀ b ∈ bs, b ≠ 0) ∧ bs.length ≤ room ∧
      (stop = 0 ∨ bs.length = room) ∧ s'.ending = s.ending := by
  induction room generalizing s s' bs with
  | zero =>
    obtain ⟨field, s₁, hf, h⟩ := Reading.bind_eq_ok h
    obtain ⟨hrest, hlen, he⟩ := readField_eq_ok hf
    obtain ⟨stop, rfl⟩ := List.length_eq_one_iff.1 hlen
    simp only [Reading.pure_apply, Prod.mk.injEq, Except.ok.injEq] at h
    obtain ⟨rfl, rfl⟩ := h
    exact ⟨stop, hrest, by simp, by simp, .inr rfl, he⟩
  | succ room ih =>
    obtain ⟨field, s₁, hf, h⟩ := Reading.bind_eq_ok h
    obtain ⟨hrest, hlen, he⟩ := readField_eq_ok hf
    obtain ⟨b, rfl⟩ := List.length_eq_one_iff.1 hlen
    split at h
    · rename_i hb
      simp only [Reading.pure_apply, Prod.mk.injEq, Except.ok.injEq] at h
      obtain ⟨rfl, rfl⟩ := h
      exact ⟨b, hrest, by simp, by simp, .inl (by simpa using hb), he⟩
    · rename_i hb
      obtain ⟨more, s₂, hmore, h⟩ := Reading.bind_eq_ok h
      obtain ⟨stop, hrest', hnz, hle, hstop, he'⟩ := ih hmore
      simp only [Reading.pure_apply, Prod.mk.injEq, Except.ok.injEq] at h
      obtain ⟨rfl, rfl⟩ := h
      have hb0 : b ≠ 0 := by simpa using hb
      refine ⟨stop, by rw [hrest, hrest', List.append_assoc], ?_, by simpa using hle,
        by simpa using hstop, he'.trans he⟩
      intro c hc
      rcases List.mem_cons.1 hc with rfl | hc
      · exact hb0
      · exact hnz c hc

theorem entry_eq_ok {s s' : Source} {entry : SymbolEntry} (h : readEntry s = (.ok entry, s')) :
    ∃ e : StoredEntry, s.rest = e.bytes ++ s'.rest ∧ entry = e.entry ∧ s'.ending = s.ending := by
  obtain ⟨object, s₁, hobject, h⟩ := Reading.bind_eq_ok h
  obtain ⟨hrest, hlen, he⟩ := readField_eq_ok hobject
  obtain ⟨description, s₂, hdescription, h⟩ := Reading.bind_eq_ok h
  obtain ⟨bs, s₃, hbytes, hdescription⟩ := Reading.bind_eq_ok hdescription
  obtain ⟨stop, hrest', hnz, hle, hstop, he'⟩ := descriptionBytes_eq_ok hbytes
  simp only [Reading.pure_apply, Prod.mk.injEq, Except.ok.injEq] at h hdescription
  obtain ⟨rfl, rfl⟩ := hdescription
  obtain ⟨rfl, rfl⟩ := h
  have hobj : (ObjectId.ofBytes object).toBytes = object :=
    LittleEndian.encodeUInt64_decodeUInt64 hlen
  refine ⟨⟨ObjectId.ofBytes object, bs, stop, hnz, hle, hstop⟩, ?_, rfl, he'.trans he⟩
  simp only [StoredEntry.bytes, hobj, hrest, hrest', List.append_assoc]

theorem entries_eq_ok {count : Nat} {table table' : SymbolTable} {s s' : Source}
    (h : readEntries count table s = (.ok table', s')) :
    ∃ entries : List StoredEntry, entries.length = count ∧
      s.rest = entries.flatMap StoredEntry.bytes ++ s'.rest ∧
      table' = (entries.map StoredEntry.entry).foldl
        (fun table entry => table.insert entry.object entry.description) table ∧
      s'.ending = s.ending := by
  induction count generalizing table s with
  | zero =>
    simp only [readEntries, Reading.pure_apply, Prod.mk.injEq, Except.ok.injEq] at h
    obtain ⟨rfl, rfl⟩ := h
    exact ⟨[], rfl, rfl, rfl, rfl⟩
  | succ count ih =>
    obtain ⟨entry, s₁, hentry, h⟩ := Reading.bind_eq_ok h
    obtain ⟨e, hrest, rfl, he⟩ := entry_eq_ok hentry
    obtain ⟨entries, rfl, hrest', rfl, he'⟩ := ih h
    refine ⟨e :: entries, rfl, ?_, rfl, he'.trans he⟩
    rw [hrest, hrest', List.flatMap_cons, List.append_assoc]

theorem count_eq_ok {limit n : Nat} {s s' : Source} (h : readCount limit s = (.ok n, s')) :
    s.rest = LittleEndian.encode 4 n ++ s'.rest ∧ n ≤ Encoder.maxCount ∧ n ≤ limit ∧
      s'.ending = s.ending := by
  obtain ⟨bs, s₁, hf, h⟩ := Reading.bind_eq_ok h
  obtain ⟨hrest, hlen, he⟩ := readField_eq_ok hf
  dsimp only at h
  split at h
  · rename_i hcount
    obtain ⟨hnonneg, hlimit⟩ := hcount
    simp only [Reading.pure_apply, Prod.mk.injEq, Except.ok.injEq] at h
    obtain ⟨rfl, rfl⟩ := h
    rw [LittleEndian.encode_decodeInt32 hlen (Int32.le_iff_toInt_le.1 hnonneg)]
    exact ⟨hrest, LittleEndian.toNat_decodeInt32_le bs, hlimit, he⟩
  · simp [Reading.fail_apply] at h

/-- What is read without a fault is a stored header. -/
theorem exists_of_read_eq_ok {limit : Nat} {s s' : Source} {header : Header}
    (h : read limit s = (.ok header, s')) :
    ∃ stored : StoredHeader, stored.entries.length ≤ limit ∧ s.rest = stored.bytes ++ s'.rest ∧
      header = stored.header ∧ s'.ending = s.ending := by
  obtain ⟨bs, s₁, hstart, h⟩ := Reading.bind_eq_ok h
  obtain ⟨hrest, hlen, he⟩ := readField_eq_ok hstart
  obtain ⟨count, s₂, hcount, h⟩ := Reading.bind_eq_ok h
  obtain ⟨hrest', hmax, hlimit, he'⟩ := count_eq_ok hcount
  obtain ⟨table, s₃, htable, h⟩ := Reading.bind_eq_ok h
  obtain ⟨entries, rfl, hrest'', rfl, he''⟩ := entries_eq_ok htable
  simp only [Reading.pure_apply, Prod.mk.injEq, Except.ok.injEq] at h
  obtain ⟨rfl, rfl⟩ := h
  refine ⟨⟨LittleEndian.decodeInt64 bs, entries, hmax⟩, hlimit, ?_, rfl, he''.trans (he'.trans he)⟩
  simp only [StoredHeader.bytes, LittleEndian.encodeInt64_decodeInt64 hlen, hrest, hrest', hrest'',
    List.append_assoc]

end Header

/-! ### Stored headers do not overlap -/

theorem StoredEntry.bytes_inj {e e' : StoredEntry} {rest rest' : List UInt8}
    (h : e.bytes ++ rest = e'.bytes ++ rest') : e = e' ∧ rest = rest' := by
  simp only [bytes, List.append_assoc] at h
  obtain ⟨hobject, h⟩ := List.append_inj h (by simp)
  have hread (e : StoredEntry) := Header.reads_descriptionBytes Header.descriptionLimit e.description
    e.stop e.nonzero e.length_le e.stopped
  rw [← List.append_assoc, ← List.append_assoc] at h
  obtain ⟨hdescription, hrest⟩ := (hread e).unique (hread e') h
  rw [hdescription, hrest, List.append_assoc, List.append_assoc, List.append_cancel_left_eq] at h
  have hobj : e.object = e'.object := by
    rw [← ObjectId.ofBytes_toBytes e.object, hobject, ObjectId.ofBytes_toBytes]
  exact ⟨StoredEntry.ext hobj hdescription (by simpa using h), hrest⟩

theorem StoredEntry.flatMap_bytes_inj {es es' : List StoredEntry} {rest rest' : List UInt8}
    (hlen : es.length = es'.length)
    (h : es.flatMap bytes ++ rest = es'.flatMap bytes ++ rest') : es = es' ∧ rest = rest' := by
  induction es generalizing es' with
  | nil =>
    obtain rfl := List.length_eq_zero_iff.1 hlen.symm
    exact ⟨rfl, h⟩
  | cons e es ih =>
    obtain ⟨e', es', rfl⟩ := List.exists_cons_of_length_eq_add_one hlen.symm
    simp only [List.flatMap_cons, List.append_assoc] at h
    obtain ⟨rfl, htail⟩ := bytes_inj h
    obtain ⟨rfl, hrest⟩ := ih (by simpa using hlen) htail
    exact ⟨rfl, hrest⟩

/-- A byte string begins with at most one stored header. -/
theorem StoredHeader.bytes_inj {h h' : StoredHeader} {rest rest' : List UInt8}
    (heq : h.bytes ++ rest = h'.bytes ++ rest') : h = h' ∧ rest = rest' := by
  simp only [bytes, List.append_assoc] at heq
  obtain ⟨hstart, heq⟩ := List.append_inj heq (by simp)
  obtain ⟨hcount, heq⟩ := List.append_inj heq (by simp)
  have hlt (h : StoredHeader) : h.entries.length < LittleEndian.modulus 4 :=
    Nat.lt_of_le_of_lt h.count_le (by decide)
  have hlen := LittleEndian.encode_inj (hlt h) (hlt h') hcount
  obtain ⟨hentries, hrest⟩ := StoredEntry.flatMap_bytes_inj hlen heq
  have htime : h.startTime = h'.startTime := by
    rw [← LittleEndian.decodeInt64_encodeInt64 h.startTime, hstart,
      LittleEndian.decodeInt64_encodeInt64]
  exact ⟨StoredHeader.ext htime hentries, hrest⟩

end ReactorTrace
