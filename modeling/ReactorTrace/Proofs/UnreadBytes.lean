import ReactorTrace.Proofs.Refusals
import ReactorTrace.Proofs.SameRows

/-! Bytes of a record that decide nothing: its padding, and which negative number stands for a missing
reaction. Two records that differ in nothing else are decoded to one record (`StoredRecord.Alike.ofRaw_eq`),
so that conversions of two traces that differ in nothing else go the same way, whatever comes of them and
whatever the output does (`convert_of_alike`). -/

namespace ReactorTrace

variable {σ : Type}

/-- Slices agree where the bytes in them agree. -/
theorem RawRecord.slice_congr {bs bs' : List UInt8} {offset width : Nat}
    (h : ∀ i, offset ≤ i → i < offset + width → bs[i]? = bs'[i]?) :
    slice bs offset width = slice bs' offset width := by
  apply List.ext_getElem?
  intro i
  rw [slice, slice, List.getElem?_take, List.getElem?_take, List.getElem?_drop, List.getElem?_drop]
  by_cases hi : i < width
  · rw [if_pos hi, if_pos hi, h (offset + i) (by omega) (by omega)]
  · rw [if_neg hi, if_neg hi]

/-- Records that differ at most in their padding, and in the number of the reaction where both numbers
are negative. -/
def StoredRecord.Alike (r r' : StoredRecord) : Prop :=
  ∀ i, ¬ (4 ≤ i ∧ i < 8) → ¬ (36 ≤ i ∧ i < 40) →
    ¬ (16 ≤ i ∧ i < 20 ∧ r.raw.reaction < 0 ∧ r'.raw.reaction < 0) → r.bytes[i]? = r'.bytes[i]?

/-- Such records are decoded to the same one. -/
theorem StoredRecord.Alike.ofRaw_eq {r r' : StoredRecord} (h : r.Alike r') :
    Record.ofRaw r.raw = Record.ofRaw r'.raw := by
  have hslice (offset width : Nat) (hread : ∀ i, offset ≤ i → i < offset + width →
      ¬ (4 ≤ i ∧ i < 8) ∧ ¬ (16 ≤ i ∧ i < 20) ∧ ¬ (36 ≤ i ∧ i < 40)) :
      RawRecord.slice r.bytes offset width = RawRecord.slice r'.bytes offset width :=
    RawRecord.slice_congr fun i hlow hhigh =>
      have hi := hread i hlow hhigh
      h i hi.1 hi.2.2 fun hnumber => hi.2.1 ⟨hnumber.1, hnumber.2.1⟩
  have hreaction : (if r.raw.reaction < 0 then none else some r.raw.reaction.toUInt32) =
      if r'.raw.reaction < 0 then none else some r'.raw.reaction.toUInt32 := by
    by_cases hneg : r.raw.reaction < 0 ∧ r'.raw.reaction < 0
    · rw [if_pos hneg.1, if_pos hneg.2]
    · have hsame : r.raw.reaction = r'.raw.reaction :=
        congrArg LittleEndian.decodeInt32 (RawRecord.slice_congr fun i hlow hhigh =>
          h i (by omega) (by omega) fun hnumber => hneg hnumber.2.2)
      rw [hsame]
  unfold Record.ofRaw
  rw [hreaction]
  simp only [raw, RawRecord.ofBlock, hslice 0 4 (by omega), hslice 8 8 (by omega),
    hslice 20 4 (by omega), hslice 24 8 (by omega), hslice 32 4 (by omega), hslice 40 8 (by omega)]

/-- Rows come from the decoded records. -/
theorem StoredRecord.Alike.sameRow {r r' : StoredRecord} (h : r.Alike r') (d : Decoder) :
    d.SameRow d r r' := by
  intro index
  rw [Decoder.row, Decoder.row, h.ofRaw_eq]

/-- Batches of as many records, each like the other one. -/
def StoredBatch.Alike (b b' : StoredBatch) : Prop :=
  List.Forall₂ StoredRecord.Alike b.records b'.records

theorem StoredBatch.Alike.sameRows {b b' : StoredBatch} (h : b.Alike b') (d : Decoder) :
    d.SameRows d b b' := List.Forall₂.imp (fun _ _ hr => StoredRecord.Alike.sameRow hr d) h

/-- Conversions of two streams that have the same result, print the same, leave the output in the same
state and take equally many bytes. -/
structure ConvertAlike (config : Config) (out : Output σ) (source source' : Source) (s : σ) : Prop where
  result_eq : (convert config out source s).result = (convert config out source' s).result
  printed_eq : (convert config out source s).printed = (convert config out source' s).printed
  output_eq : (convert config out source s).output = (convert config out source' s).output
  taken : ∃ taken ≤ source.rest.length, taken ≤ source'.rest.length ∧
    (convert config out source s).source.rest = source.rest.drop taken ∧
    (convert config out source' s).source.rest = source'.rest.drop taken

theorem ConvertAlike.of_stored {config : Config} {stored : StoredHeader}
    (hlimit : stored.entries.length ≤ config.maxObjects) {batches batches' : List StoredBatch}
    (h : List.Forall₂ StoredBatch.Alike batches batches') {tail : List UInt8} {source source' : Source}
    (hsource : source.rest = stored.bytes ++ (batches.flatMap StoredBatch.bytes ++ tail))
    (hsource' : source'.rest = stored.bytes ++ (batches'.flatMap StoredBatch.bytes ++ tail))
    (hending : source'.ending = source.ending) (out : Output σ) (s : σ) :
    ConvertAlike config out source source' s := by
  let d := config.decoder stored.header
  have hbody : d.SameBody d out batches batches' tail :=
    ⟨rfl, h.imp fun _ _ hb => hb.sameRows d, fun _ _ => rfl⟩
  obtain ⟨⟨ended, hresult, hresult'⟩, hprinted, hprinted', houtput, htaken⟩ :=
    SameCourse.of_stored hlimit hlimit rfl hbody hsource hsource' hending s
  exact ⟨hresult.trans hresult'.symm, hprinted.trans hprinted'.symm, houtput, htaken⟩

/-- Two inputs with one header, batches that are alike and the same bytes behind them are converted alike,
with the same calls. -/
theorem convert_of_alike {config : Config} {front : List UInt8} {header : Header} {left : Source}
    (hread : Header.read config.maxObjects (.plain front) = (.ok header, left)) (hleft : left.rest = [])
    {batches batches' : List StoredBatch} (h : List.Forall₂ StoredBatch.Alike batches batches')
    (tail : List UInt8) (ending : Ending) (delivery delivery' : Delivery) (out : Output σ) (s : σ) :
    let source := Source.ofBytes (front ++ batches.flatMap StoredBatch.bytes ++ tail) ending delivery
    let source' := Source.ofBytes (front ++ batches'.flatMap StoredBatch.bytes ++ tail) ending delivery'
    ConvertAlike config out source source' s ∧
      ConvertAlike config out.logged source source' (s, []) := by
  obtain ⟨stored, hlimit, hstored, rfl, -⟩ := Header.exists_of_read_eq_ok hread
  rw [hleft, List.append_nil] at hstored
  obtain rfl : front = stored.bytes := hstored
  intro source source'
  have hsource : source.rest = stored.bytes ++ (batches.flatMap StoredBatch.bytes ++ tail) :=
    List.append_assoc ..
  have hsource' : source'.rest = stored.bytes ++ (batches'.flatMap StoredBatch.bytes ++ tail) :=
    List.append_assoc ..
  exact ⟨.of_stored hlimit h hsource hsource' rfl out s,
    .of_stored hlimit h hsource hsource' rfl out.logged (s, [])⟩

/-- A record without a reaction, against one with other bytes in its padding and another negative number;
behind them the trace is cut off. -/
theorem convert_of_alike_without_reaction :
    let record := fun (padding number : UInt8) => List.replicate 4 0 ++ List.replicate 4 padding ++
      List.replicate 8 0 ++ [number, 255, 255, 255] ++ List.replicate 28 0
    ∃ r r' : StoredRecord, r.bytes = record 0 255 ∧ r'.bytes = record 7 128 ∧ r.Alike r' ∧
      ConvertAlike .standard (Recording.output .none)
        (.plain (List.replicate 12 0 ++ ([1, 0, 0, 0] ++ record 0 255) ++ [9]))
        (.plain (List.replicate 12 0 ++ ([1, 0, 0, 0] ++ record 7 128) ++ [9])) .empty := by
  intro record
  let r : StoredRecord := ⟨record 0 255, rfl⟩
  let r' : StoredRecord := ⟨record 7 128, rfl⟩
  have hsame : ∀ i < 48, (4 ≤ i ∧ i < 8) ∨ (16 ≤ i ∧ i < 20) ∨
    (record 0 255)[i]? = (record 7 128)[i]? := by decide
  have hnegative : r.raw.reaction < 0 ∧ r'.raw.reaction < 0 := by decide
  have hr : r.Alike r' := by
    intro i hpadding _ hnumber
    by_cases hi : i < 48
    · rcases hsame i hi with h | h | h
      · exact absurd h hpadding
      · exact absurd ⟨h.1, h.2, hnegative⟩ hnumber
      · exact h
    · rw [List.getElem?_eq_none (Nat.le_of_not_lt hi), List.getElem?_eq_none (Nat.le_of_not_lt hi)]
  have hcount : ([] : List StoredEntry).length ≤ Config.standard.maxObjects := by decide
  obtain ⟨hread, hrest, -⟩ := (Header.reads_header ⟨0, [], by decide⟩ hcount).whole
    (.plain (List.replicate 12 0)) [] rfl
  have hbatches : List.Forall₂ StoredBatch.Alike [⟨[r], by decide⟩] [⟨[r'], by decide⟩] :=
    .cons (.cons hr .nil) .nil
  have hbytes (r : StoredRecord) (hle : [r].length ≤ Encoder.maxCount) :
      [(⟨[r], hle⟩ : StoredBatch)].flatMap StoredBatch.bytes = [1, 0, 0, 0] ++ r.bytes := by
    have hone : LittleEndian.encode 4 1 = [1, 0, 0, 0] := by decide
    rw [List.flatMap_singleton, StoredBatch.bytes, StoredBatch.block, List.flatMap_singleton,
      List.length_singleton, hone]
  have hconvert := (convert_of_alike (Prod.ext hread rfl) hrest hbatches [9] .endOfFile .prompt .prompt
    (Recording.output .none) .empty).1
  rw [hbytes, hbytes] at hconvert
  exact ⟨r, r', rfl, rfl, hr, hconvert⟩

end ReactorTrace
