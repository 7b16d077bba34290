import ReactorTrace.Proofs.Records

/-! Records in their three forms: decoded, raw and stored. A raw record is read back from its bytes, with
anything behind them; the bytes of a block are written again as they were, but for the padding. Decoding
undoes storing, and storing undoes decoding up to the number of a missing reaction
(`record_forms_agree`). -/

namespace ReactorTrace

namespace RawRecord

open LittleEndian

/-! ### Bytes -/

theorem ofBytes?_of_le {bs : List UInt8} (h : size ≤ bs.length) : ofBytes? bs = some (ofBlock bs) :=
  if_neg (Nat.not_lt.2 h)

theorem ofBytes?_eq_none_iff {bs : List UInt8} : ofBytes? bs = none ↔ bs.length < size := by
  rw [ofBytes?]
  split <;> simp_all

/-- What stands behind the field does not matter. -/
theorem slice_append_left {bs more : List UInt8} {offset width : Nat}
    (h : offset + width ≤ bs.length) : slice (bs ++ more) offset width = slice bs offset width := by
  rw [slice, slice, List.drop_append_of_le_length (by omega),
    List.take_append_of_le_length (by rw [List.length_drop]; omega)]

theorem ofBlock_append {bs : List UInt8} (h : size ≤ bs.length) (more : List UInt8) :
    ofBlock (bs ++ more) = ofBlock bs := by
  have hslice {offset width : Nat} (hfield : offset + width ≤ size) :
      slice (bs ++ more) offset width = slice bs offset width :=
    slice_append_left (Nat.le_trans hfield h)
  simp (disch := decide) only [ofBlock, hslice]

theorem length_slice {bs : List UInt8} {offset width : Nat} (h : offset + width ≤ bs.length) :
    (slice bs offset width).length = width := by
  rw [slice, List.length_take, List.length_drop]
  omega

/-- Neighbouring fields together. -/
theorem slice_append_slice {bs : List UInt8} {offset next width more : Nat}
    (h : next = offset + width) :
    slice bs offset width ++ slice bs next more = slice bs offset (width + more) := by
  subst h
  rw [slice, slice, slice, List.take_add, List.drop_drop]

/-! ### Padding -/

def IsPadding (offset : Nat) : Prop := (4 ≤ offset ∧ offset < 8) ∨ (36 ≤ offset ∧ offset < 40)

instance (offset : Nat) : Decidable (IsPadding offset) := inferInstanceAs (Decidable (_ ∨ _))

/-- The bytes from an offset on, with zeros for the padding. -/
def clearFrom (offset : Nat) (bs : List UInt8) : List UInt8 :=
  bs.mapIdx fun i b => if IsPadding (offset + i) then 0 else b

def clearPadding (bs : List UInt8) : List UInt8 := clearFrom 0 bs

theorem clearFrom_append (offset : Nat) (bs more : List UInt8) :
    clearFrom offset (bs ++ more) = clearFrom offset bs ++ clearFrom (offset + bs.length) more := by
  simp only [clearFrom, List.mapIdx_append, Nat.add_assoc, Nat.add_comm bs.length]

theorem clearFrom_of_field {offset : Nat} {bs : List UInt8}
    (h : ∀ i < bs.length, ¬ IsPadding (offset + i)) : clearFrom offset bs = bs := by
  apply List.ext_getElem
  · rw [clearFrom, List.length_mapIdx]
  · intro i _ hi
    simp only [clearFrom, List.getElem_mapIdx, if_neg (h i hi)]

theorem clearFrom_of_padding {offset : Nat} {bs : List UInt8}
    (h : ∀ i < bs.length, IsPadding (offset + i)) :
    clearFrom offset bs = List.replicate bs.length 0 := by
  apply List.ext_getElem
  · rw [clearFrom, List.length_mapIdx, List.length_replicate]
  · intro i _ hi
    rw [List.length_replicate] at hi
    simp only [clearFrom, List.getElem_mapIdx, if_pos (h i hi), List.getElem_replicate]

/-- Every field is written where it is read. -/
theorem toBytes_ofBlock {bs : List UInt8} (h : size ≤ bs.length) :
    (ofBlock bs).toBytes = clearPadding (bs.take size) := by
  have hlength {offset width : Nat} (hle : offset + width ≤ size) :
      (slice bs offset width).length = width := length_slice (Nat.le_trans hle h)
  have hfield {offset width : Nat} (hle : offset + width ≤ size)
      (hkept : ∀ i < width, ¬ IsPadding (offset + i)) :
      clearFrom offset (slice bs offset width) = slice bs offset width :=
    clearFrom_of_field ((hlength hle).symm ▸ hkept)
  have hzeros {offset : Nat} (hle : offset + 4 ≤ size)
      (hcleared : ∀ i < 4, IsPadding (offset + i)) :
      clearFrom offset (slice bs offset 4) = padding := by
    have hzeros := clearFrom_of_padding ((hlength hle).symm ▸ hcleared)
    rwa [hlength hle] at hzeros
  have hparts : bs.take size =
      slice bs 0 4 ++ (slice bs 4 4 ++ (slice bs 8 28 ++ (slice bs 36 4 ++ slice bs 40 8))) := by
    simp (disch := decide) only [slice_append_slice, Nat.reduceAdd]
    rw [slice, List.drop_zero, size]
  have hmiddle : slice bs 8 28 =
      slice bs 8 8 ++ (slice bs 16 4 ++ (slice bs 20 4 ++ (slice bs 24 8 ++ slice bs 32 4))) := by
    simp (disch := decide) only [slice_append_slice, Nat.reduceAdd]
  have hcleared : clearPadding (bs.take size) =
      slice bs 0 4 ++ (padding ++ (slice bs 8 28 ++ (padding ++ slice bs 40 8))) := by
    rw [clearPadding, hparts]
    simp only [clearFrom_append]
    rw [hlength (by decide), hlength (by decide), hlength (by decide), hlength (by decide),
      hfield (by decide) (by decide), hzeros (by decide) (by decide),
      hfield (by decide) (by decide), hzeros (by decide) (by decide),
      hfield (by decide) (by decide)]
  rw [hcleared, hmiddle]
  simp only [toBytes, ofBlock, ObjectId.toBytes, ObjectId.ofBytes, List.append_assoc]
  rw [encodeInt32_decodeInt32 (hlength (by decide)), encodeInt32_decodeInt32 (hlength (by decide)),
    encodeInt32_decodeInt32 (hlength (by decide)), encodeInt32_decodeInt32 (hlength (by decide)),
    encodeInt64_decodeInt64 (hlength (by decide)), encodeInt64_decodeInt64 (hlength (by decide)),
    encodeUInt64_decodeUInt64 (hlength (by decide))]

end RawRecord

namespace Record

theorem exists_toRaw_error_iff {record : Record} :
    (∃ refusal, record.toRaw = .error refusal) ↔
      ∃ r, record.reaction = some r ∧ maxReaction < r.toNat := by
  constructor
  · rintro ⟨refusal, hrefused⟩
    apply Classical.byContradiction
    intro hsmall
    have hstorable : record.Storable := fun r hr =>
      Nat.not_lt.1 fun hlarge => hsmall ⟨r, hr, hlarge⟩
    obtain ⟨raw, hraw, -⟩ := exists_toRaw hstorable
    rw [hrefused] at hraw
    cases hraw
  · rintro ⟨r, hr, hlarge⟩
    exact ⟨_, toRaw_of_large hr hlarge⟩

/-- A number is stored anew as itself, and every negative one as `-1`. -/
theorem storedReaction_ofRaw (n : Int32) :
    storedReaction (if n < 0 then none else some n.toUInt32) = .ok (if n < 0 then -1 else n) := by
  by_cases hneg : n < 0
  · rw [if_pos hneg, if_pos hneg]
    rfl
  · have hsmall : n.toUInt32.toNat ≤ maxReaction := by
      have hnonneg : ¬ n.toInt < 0 := fun h => hneg (Int32.lt_iff_toInt_lt.2 h)
      have hint := toInt_toInt32 n.toUInt32
      have hlt := n.toUInt32.toNat_lt
      rw [Int32.toInt32_toUInt32, Int.bmod_def] at hint
      unfold maxReaction
      omega
    rw [if_neg hneg, if_neg hneg, storedReaction, if_pos hsmall, Int32.toInt32_toUInt32]

theorem toRaw_ofRaw (raw : RawRecord) : (ofRaw raw).toRaw =
    .ok { raw with reaction := if raw.reaction < 0 then -1 else raw.reaction } := by
  rw [toRaw, ofRaw, storedReaction_ofRaw]
  rfl

end Record

/-- The forms of a record agree. A raw record comes back from its bytes, whatever stands behind them. A
byte string is refused exactly if it is shorter than a record, and otherwise gives a record whose bytes
are its first 48, with zeros for the padding. A decoded record is refused exactly if its reaction has no
nonnegative 32-bit number, and otherwise comes back from its raw form. A raw record comes back from its
decoded form, but for a negative reaction, which becomes `-1`. -/
theorem record_forms_agree :
    (∀ (raw : RawRecord) (more : List UInt8), RawRecord.ofBytes? (raw.toBytes ++ more) = some raw) ∧
    (∀ bs : List UInt8, (RawRecord.ofBytes? bs = none ↔ bs.length < 48) ∧
      (48 ≤ bs.length → ∃ raw, RawRecord.ofBytes? bs = some raw ∧
        raw.toBytes = RawRecord.clearPadding (bs.take 48))) ∧
    (∀ record : Record,
      ((∃ refusal, record.toRaw = .error refusal) ↔
        ∃ r, record.reaction = some r ∧ 2147483647 < r.toNat) ∧
      ((∀ r, record.reaction = some r → r.toNat ≤ 2147483647) →
        ∃ raw, record.toRaw = .ok raw ∧ Record.ofRaw raw = record)) ∧
    ∀ raw : RawRecord, (Record.ofRaw raw).toRaw =
      .ok { raw with reaction := if raw.reaction < 0 then -1 else raw.reaction } := by
  refine ⟨fun raw more => ?_, fun bs => ⟨RawRecord.ofBytes?_eq_none_iff, fun hlong => ?_⟩,
    fun record => ⟨Record.exists_toRaw_error_iff, fun hstorable => Record.exists_toRaw hstorable⟩,
    Record.toRaw_ofRaw⟩
  · have hlong : RawRecord.size ≤ raw.toBytes.length := Nat.le_of_eq raw.length_toBytes.symm
    rw [RawRecord.ofBytes?_of_le (by rw [List.length_append]; omega),
      RawRecord.ofBlock_append hlong, RawRecord.ofBlock_toBytes]
  · exact ⟨RawRecord.ofBlock bs, RawRecord.ofBytes?_of_le hlong, RawRecord.toBytes_ofBlock hlong⟩

end ReactorTrace
