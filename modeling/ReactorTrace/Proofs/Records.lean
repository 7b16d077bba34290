import ReactorTrace.Record.Layout

/-! Records written and read back. The layout loses nothing of a raw record (`ofBlock_toBytes`), and a
record that can be stored comes back from its stored form (`ofRaw_of_toRaw`): which negative number
stands for a missing reaction is the only thing that is not kept. Records are stored one by one
(`mapM_toRaw_eq_ok_iff`), and all of them or none. -/

namespace ReactorTrace

namespace RawRecord

/-- A field behind another one. -/
theorem slice_skip {before after : List UInt8} {offset width : Nat} (h : before.length ≤ offset) :
    slice (before ++ after) offset width = slice after (offset - before.length) width := by
  rw [slice, List.drop_append, List.drop_eq_nil_of_le h, List.nil_append, slice]

theorem slice_field {field after : List UInt8} {width : Nat} (h : field.length = width) :
    slice (field ++ after) 0 width = field := by
  rw [slice, List.drop_zero, List.take_left' h]

theorem slice_last {field : List UInt8} {width : Nat} (h : field.length = width) :
    slice field 0 width = field := by
  rw [slice, List.drop_zero, List.take_of_length_le (Nat.le_of_eq h)]

/-- Every field is read from where it is written. -/
theorem ofBlock_toBytes (raw : RawRecord) : ofBlock raw.toBytes = raw := by
  have hpadding : padding.length = 4 := rfl
  have hobject : raw.object.toBytes.length = 8 := raw.object.length_toBytes
  simp [ofBlock, toBytes, slice_skip, slice_field, slice_last, hpadding, hobject]

end RawRecord

namespace Record

theorem toInt_toInt32 (r : UInt32) : r.toInt32.toInt = Int.bmod r.toNat 4294967296 := by
  have h : (UInt32.ofNat r.toNat).toInt32.toInt = _ := Int32.toInt_ofNat'
  rwa [UInt32.ofNat_toNat] at h

theorem storedReaction_eq_ok {reaction : Option UInt32} {n : Int32}
    (h : storedReaction reaction = .ok n) :
    (if n < 0 then none else some n.toUInt32) = reaction := by
  cases reaction with
  | none =>
    obtain rfl : -1 = n := Except.ok.inj h
    rfl
  | some r =>
    rw [storedReaction] at h
    split at h
    · rename_i hle
      obtain rfl : r.toInt32 = n := Except.ok.inj h
      have hnonneg : ¬ r.toInt32 < 0 := by
        intro hneg
        have hint : r.toInt32.toInt < 0 := Int32.lt_iff_toInt_lt.1 hneg
        rw [toInt_toInt32, Int.bmod_def] at hint
        unfold maxReaction at hle
        omega
      rw [if_neg hnonneg, UInt32.toUInt32_toInt32]
    · simp at h

theorem ofRaw_of_toRaw {record : Record} {raw : RawRecord} (h : record.toRaw = .ok raw) :
    ofRaw raw = record := by
  unfold toRaw at h
  cases hreaction : storedReaction record.reaction with
  | error refusal => simp [hreaction, Except.map] at h
  | ok n =>
    simp only [hreaction, Except.map, Except.ok.injEq] at h
    subst h
    simp only [ofRaw, storedReaction_eq_ok hreaction]

/-- The reaction is missing or has a nonnegative number. -/
def Storable (record : Record) : Prop := ∀ r, record.reaction = some r → r.toNat ≤ maxReaction

theorem exists_toRaw {record : Record} (h : record.Storable) :
    ∃ raw, record.toRaw = .ok raw ∧ ofRaw raw = record := by
  have hstored : ∃ n, storedReaction record.reaction = .ok n := by
    cases hreaction : record.reaction with
    | none => exact ⟨-1, rfl⟩
    | some r => exact ⟨r.toInt32, if_pos (h r hreaction)⟩
  obtain ⟨n, hn⟩ := hstored
  cases hraw : record.toRaw with
  | error refusal => simp [toRaw, hn, Except.map] at hraw
  | ok raw => exact ⟨raw, rfl, ofRaw_of_toRaw hraw⟩

theorem exists_mapM_toRaw {records : List Record} (h : ∀ record ∈ records, record.Storable) :
    ∃ raws, records.mapM toRaw = .ok raws ∧ raws.map ofRaw = records := by
  induction records with
  | nil => exact ⟨[], rfl, rfl⟩
  | cons record records ih =>
    obtain ⟨hrecord, hrecords⟩ := List.forall_mem_cons.1 h
    obtain ⟨raw, hraw, rfl⟩ := exists_toRaw hrecord
    obtain ⟨raws, hraws, rfl⟩ := ih hrecords
    refine ⟨raw :: raws, ?_, rfl⟩
    rw [List.mapM_cons, hraw, hraws]
    rfl

/-- A batch is brought into its stored form record by record. -/
theorem mapM_toRaw_eq_ok_iff {records : List Record} {raws : List RawRecord} :
    records.mapM toRaw = .ok raws ↔ records.map toRaw = raws.map .ok := by
  induction records generalizing raws with
  | nil =>
    constructor
    · intro h
      obtain rfl : [] = raws := Except.ok.inj h
      rfl
    · intro h
      obtain rfl : raws = [] := List.map_eq_nil_iff.1 h.symm
      rfl
  | cons record records ih =>
    rw [List.mapM_cons, List.map_cons]
    constructor
    · intro h
      cases hfirst : record.toRaw with
      | error refusal => simp [hfirst, bind, Except.bind] at h
      | ok raw =>
        cases hmore : records.mapM toRaw with
        | error refusal => simp [hfirst, hmore, bind, Except.bind] at h
        | ok more =>
          rw [hfirst, hmore] at h
          obtain rfl : raw :: more = raws := Except.ok.inj h
          rw [ih.1 hmore, List.map_cons]
    · intro h
      cases raws with
      | nil => exact absurd h (List.cons_ne_nil _ _)
      | cons raw raws =>
        obtain ⟨hfirst, hmore⟩ := List.cons_eq_cons.1 h
        rw [hfirst, ih.2 hmore]
        rfl

theorem toRaw_of_large {record : Record} {r : UInt32} (hr : r ∈ record.reaction)
    (hlarge : maxReaction < r.toNat) : record.toRaw = .error .reactionTooLarge := by
  rw [toRaw, Option.mem_def.1 hr, storedReaction, if_neg (Nat.not_le.2 hlarge)]
  rfl

/-- One record that cannot be stored is enough, wherever it stands. -/
theorem mapM_toRaw_of_large {records : List Record} {record : Record} {r : UInt32}
    (hrecord : record ∈ records) (hr : r ∈ record.reaction) (hlarge : maxReaction < r.toNat) :
    records.mapM toRaw = .error .reactionTooLarge := by
  cases hraws : records.mapM toRaw with
  | error refusal =>
    cases refusal
    rfl
  | ok raws =>
    have hmem : record.toRaw ∈ records.map toRaw := List.mem_map_of_mem hrecord
    rw [mapM_toRaw_eq_ok_iff.1 hraws, toRaw_of_large hr hlarge] at hmem
    simp at hmem

/-- The reaction of a stored record is its number, or missing when that is negative. -/
theorem reaction_ofRaw (raw : RawRecord) :
    (ofRaw raw).reaction =
      if raw.reaction.toInt < 0 then none else some (UInt32.ofNat raw.reaction.toInt.toNat) := by
  have hback : raw.reaction.toUInt32.toInt32 = raw.reaction := Int32.toInt32_toUInt32 _
  have hint := toInt_toInt32 raw.reaction.toUInt32
  rw [hback] at hint
  have hlt := raw.reaction.toUInt32.toNat_lt
  unfold ofRaw
  dsimp only
  by_cases hneg : raw.reaction < 0
  · have hint' : raw.reaction.toInt < 0 := Int32.lt_iff_toInt_lt.1 hneg
    rw [if_pos hneg, if_pos hint']
  · have hnonneg : ¬ raw.reaction.toInt < 0 := fun h => hneg (Int32.lt_iff_toInt_lt.2 h)
    have hnat : raw.reaction.toInt.toNat = raw.reaction.toUInt32.toNat := by
      rw [hint, Int.bmod_def] at hnonneg ⊢
      omega
    rw [if_neg hneg, if_neg hnonneg, hnat, UInt32.ofNat_toNat]

end Record

end ReactorTrace
