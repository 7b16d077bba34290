import ReactorTrace.Text.Utf8

/-! Text written as UTF-8 is read back. The scanner takes the bytes of one character off the front,
whatever follows them (`scan_encodeChar`), so that encoded text splits into its own characters and
none is replaced. -/

namespace ReactorTrace.Text.Utf8

theorem toNat_ofNat {n : Nat} (h : n < 256) : (UInt8.ofNat n).toNat = n := by
  rw [UInt8.toNat_ofNat']
  exact Nat.mod_eq_of_lt h

theorem scanTail_cons {more low high value taken : Nat} {b : UInt8} (bs : List UInt8)
    (hlow : low ≤ b.toNat) (hhigh : b.toNat ≤ high) :
    scanTail (more + 1) low high value taken (b :: bs) =
      scanTail more 0x80 0xBF (64 * value + (b.toNat - 0x80)) (taken + 1) bs :=
  if_pos ⟨hlow, hhigh⟩

theorem scanTail_zero (low high value taken : Nat) (bs : List UInt8) :
    scanTail 0 low high value taken bs = (some (Char.ofNat value), taken) := by
  cases bs <;> rfl

/-- Surrogates are no characters. -/
theorem toNat_val (c : Char) : c.val.toNat < 0xD800 ∨ 0xDFFF < c.val.toNat ∧ c.val.toNat < 0x110000 :=
  c.valid

theorem ofNat_eq {c : Char} {n : Nat} (h : n = c.val.toNat) : Char.ofNat n = c := by
  rw [h]
  exact Char.ofNat_toNat c

/-- A character is scanned off the front of any bytes. -/
theorem scan_encodeChar (c : Char) (rest : List UInt8) :
    ∃ b bs, String.utf8EncodeChar c = b :: bs ∧ scan b (bs ++ rest) = (some c, bs.length) := by
  have hvalid := toNat_val c
  have hchar := @ofNat_eq c
  unfold String.utf8EncodeChar
  generalize c.val.toNat = v at hvalid hchar
  dsimp only
  split
  · rename_i h
    have hb := toNat_ofNat (show v < 256 by omega)
    refine ⟨_, _, rfl, ?_⟩
    simp only [scan, hb]
    rw [if_pos (by omega), hchar rfl]
    rfl
  · split
    · have hlead := toNat_ofNat (show v / 64 % 32 + 192 < 256 by omega)
      have hb := toNat_ofNat (show v % 64 + 128 < 256 by omega)
      refine ⟨_, _, rfl, ?_⟩
      simp only [scan, hlead, List.cons_append]
      rw [if_neg (by omega), if_neg (by omega), if_pos (by omega),
        scanTail_cons _ (by omega) (by omega), scanTail_zero, hb, hchar (by omega)]
      rfl
    · split
      · have hlead := toNat_ofNat (show v / 4096 % 16 + 224 < 256 by omega)
        have hb := toNat_ofNat (show v / 64 % 64 + 128 < 256 by omega)
        have hc := toNat_ofNat (show v % 64 + 128 < 256 by omega)
        refine ⟨_, _, rfl, ?_⟩
        simp only [scan, hlead, List.cons_append]
        rw [if_neg (by omega), if_neg (by omega), if_neg (by omega), if_pos (by omega),
          scanTail_cons _ (by split <;> omega) (by split <;> omega),
          scanTail_cons _ (by omega) (by omega), scanTail_zero, hb, hc, hchar (by omega)]
        rfl
      · have hlead := toNat_ofNat (show v / 262144 % 8 + 240 < 256 by omega)
        have hb := toNat_ofNat (show v / 4096 % 64 + 128 < 256 by omega)
        have hc := toNat_ofNat (show v / 64 % 64 + 128 < 256 by omega)
        have hd := toNat_ofNat (show v % 64 + 128 < 256 by omega)
        refine ⟨_, _, rfl, ?_⟩
        simp only [scan, hlead, List.cons_append]
        rw [if_neg (by omega), if_neg (by omega), if_neg (by omega), if_neg (by omega),
          if_pos (by omega), scanTail_cons _ (by split <;> omega) (by split <;> omega),
          scanTail_cons _ (by omega) (by omega), scanTail_cons _ (by omega) (by omega),
          scanTail_zero, hb, hc, hd, hchar (by omega)]
        rfl

theorem units_encodeChar (c : Char) (rest : List UInt8) :
    units (String.utf8EncodeChar c ++ rest) = some c :: units rest := by
  obtain ⟨b, bs, hbytes, hscan⟩ := scan_encodeChar c rest
  rw [hbytes, List.cons_append, units, hscan]
  dsimp only
  rw [List.drop_left]

theorem units_flatMap (cs : List Char) : units (cs.flatMap String.utf8EncodeChar) = cs.map some := by
  induction cs with
  | nil => rw [List.flatMap_nil, units, List.map_nil]
  | cons c cs ih => rw [List.flatMap_cons, units_encodeChar, ih, List.map_cons]

theorem decodeLossy_encode (text : String) : decodeLossy (encode text) = text := by
  have hmap : (text.toList.map some).map (·.getD replacement) = text.toList := by
    rw [List.map_map]
    exact List.map_id _
  rw [decodeLossy, encode, units_flatMap, hmap, String.ofList_toList]

theorem decode?_encode (text : String) : decode? (encode text) = some text := by
  have hsome : (units (encode text)).all Option.isSome = true := by
    rw [encode, units_flatMap]
    simp
  rw [decode?, if_pos hsome, decodeLossy_encode]

/-- The bytes of a character other than zero are not zero. -/
theorem encodeChar_ne_zero {c : Char} (hc : c ≠ '\x00') : ∀ b ∈ String.utf8EncodeChar c, b ≠ 0 := by
  have hpos : c.val.toNat ≠ 0 := by
    intro h
    exact hc (Char.ext (UInt32.toNat_inj.1 h))
  have hne {n : Nat} (h : n < 256) (h0 : n ≠ 0) : UInt8.ofNat n ≠ 0 := by
    intro heq
    have hn := congrArg UInt8.toNat heq
    rw [toNat_ofNat h] at hn
    exact h0 hn
  unfold String.utf8EncodeChar
  generalize c.val.toNat = v at hpos
  dsimp only
  intro b hb
  split at hb
  · obtain rfl := List.mem_singleton.1 hb
    exact hne (by omega) hpos
  · split at hb
    · simp only [List.mem_cons, List.not_mem_nil, or_false] at hb
      rcases hb with rfl | rfl <;> exact hne (by omega) (by omega)
    · split at hb
      · simp only [List.mem_cons, List.not_mem_nil, or_false] at hb
        rcases hb with rfl | rfl | rfl <;> exact hne (by omega) (by omega)
      · simp only [List.mem_cons, List.not_mem_nil, or_false] at hb
        rcases hb with rfl | rfl | rfl | rfl <;> exact hne (by omega) (by omega)

theorem encode_ne_zero {text : String} (h : '\x00' ∉ text.toList) : ∀ b ∈ encode text, b ≠ 0 := by
  intro b hb
  obtain ⟨c, hc, hb⟩ := List.mem_flatMap.1 hb
  apply encodeChar_ne_zero _ b hb
  rintro rfl
  exact h hc

theorem length_encode (text : String) : (encode text).length = text.utf8ByteSize := by
  have h := @String.toByteArray_ofList text.toList
  rw [String.ofList_toList] at h
  rw [← String.size_toByteArray, h]
  exact List.size_toByteArray.symm

theorem encode_append (text text' : String) : encode (text ++ text') = encode text ++ encode text' := by
  rw [encode, String.toList_append, List.flatMap_append]
  rfl

theorem encode_push (text : String) (c : Char) :
    encode (text.push c) = encode text ++ String.utf8EncodeChar c := by
  rw [encode, String.toList_push, List.flatMap_append, List.flatMap_singleton]
  rfl

/-! ### Bytes that may be ill-formed -/

theorem scanTail_eq_some {more low high value taken n : Nat} {bs : List UInt8} {c : Char}
    (h : scanTail (more + 1) low high value taken bs = (some c, n)) :
    ∃ b rest, bs = b :: rest ∧ low ≤ b.toNat ∧ b.toNat ≤ high ∧
      scanTail more 0x80 0xBF (64 * value + (b.toNat - 0x80)) (taken + 1) rest = (some c, n) := by
  cases bs with
  | nil => simp [scanTail] at h
  | cons b rest =>
    rw [scanTail] at h
    split at h
    · rename_i hrange
      exact ⟨b, rest, rfl, hrange.1, hrange.2, h⟩
    · simp at h

theorem scanTail_zero_eq {low high value taken n : Nat} {bs : List UInt8} {c : Char}
    (h : scanTail 0 low high value taken bs = (some c, n)) : c = Char.ofNat value ∧ n = taken := by
  rw [scanTail_zero] at h
  simpa [eq_comm] using h

/-- An ill-formed part stops before the last byte of the character that it could begin. -/
theorem scanTail_none_le {more low high value taken n : Nat} {bs : List UInt8}
    (h : scanTail more low high value taken bs = (none, n)) :
    n < taken + more ∧ n ≤ taken + bs.length := by
  fun_induction scanTail more low high value taken bs with
  | case1 => simp at h
  | case2 =>
    simp only [Prod.mk.injEq, true_and] at h
    simp only [List.length_nil]
    omega
  | case3 low high value taken more b bs hrange ih =>
    have := ih h
    simp only [List.length_cons]
    omega
  | case4 =>
    simp only [Prod.mk.injEq, true_and] at h
    simp only [List.length_cons]
    omega

theorem val_ofNat {v : Nat} (h : v < 0xD800 ∨ 0xDFFF < v ∧ v < 0x110000) :
    (Char.ofNat v).val.toNat = v := by
  have hvalid : v.isValidChar := h
  rw [Char.ofNat, dif_pos hvalid]
  rfl

theorem ofNat_eq_byte (b : UInt8) {n : Nat} (h : n = b.toNat) : UInt8.ofNat n = b := by
  rw [h, UInt8.ofNat_toNat]

section

variable {b b₁ b₂ b₃ : UInt8}

theorem encodeChar_one (h : b.toNat < 0x80) : String.utf8EncodeChar (Char.ofNat b.toNat) = [b] := by
  rw [String.utf8EncodeChar, val_ofNat (by omega), if_pos (by omega), ofNat_eq_byte b rfl]

theorem encodeChar_two (hlow : 0xC2 ≤ b.toNat) (hhigh : b.toNat < 0xE0) (hlow₁ : 0x80 ≤ b₁.toNat)
    (hhigh₁ : b₁.toNat ≤ 0xBF) :
    String.utf8EncodeChar (Char.ofNat (64 * (b.toNat - 0xC0) + (b₁.toNat - 0x80))) = [b, b₁] := by
  rw [String.utf8EncodeChar, val_ofNat (by omega), if_neg (by omega), if_pos (by omega),
    ofNat_eq_byte b (by omega), ofNat_eq_byte b₁ (by omega)]

theorem encodeChar_three (hlow : 0xE0 ≤ b.toNat) (hhigh : b.toNat < 0xF0)
    (hlow₁ : (if b.toNat = 0xE0 then 0xA0 else 0x80) ≤ b₁.toNat)
    (hhigh₁ : b₁.toNat ≤ if b.toNat = 0xED then 0x9F else 0xBF) (hlow₂ : 0x80 ≤ b₂.toNat)
    (hhigh₂ : b₂.toNat ≤ 0xBF) :
    String.utf8EncodeChar (Char.ofNat
      (64 * (64 * (b.toNat - 0xE0) + (b₁.toNat - 0x80)) + (b₂.toNat - 0x80))) = [b, b₁, b₂] := by
  have hcontinues : 0x80 ≤ b₁.toNat ∧ b₁.toNat ≤ 0xBF := by
    constructor
    · split at hlow₁ <;> omega
    · split at hhigh₁ <;> omega
  have hshortest : b.toNat = 0xE0 → 0xA0 ≤ b₁.toNat := fun h => by rwa [if_pos h] at hlow₁
  have hscalar : b.toNat = 0xED → b₁.toNat ≤ 0x9F := fun h => by rwa [if_pos h] at hhigh₁
  clear hlow₁ hhigh₁
  rw [String.utf8EncodeChar, val_ofNat (by omega), if_neg (by omega), if_neg (by omega),
    if_pos (by omega), ofNat_eq_byte b (by omega), ofNat_eq_byte b₁ (by omega),
    ofNat_eq_byte b₂ (by omega)]

theorem encodeChar_four (hlow : 0xF0 ≤ b.toNat) (hhigh : b.toNat < 0xF5)
    (hlow₁ : (if b.toNat = 0xF0 then 0x90 else 0x80) ≤ b₁.toNat)
    (hhigh₁ : b₁.toNat ≤ if b.toNat = 0xF4 then 0x8F else 0xBF) (hlow₂ : 0x80 ≤ b₂.toNat)
    (hhigh₂ : b₂.toNat ≤ 0xBF) (hlow₃ : 0x80 ≤ b₃.toNat) (hhigh₃ : b₃.toNat ≤ 0xBF) :
    String.utf8EncodeChar (Char.ofNat
      (64 * (64 * (64 * (b.toNat - 0xF0) + (b₁.toNat - 0x80)) + (b₂.toNat - 0x80)) +
        (b₃.toNat - 0x80))) = [b, b₁, b₂, b₃] := by
  have hcontinues : 0x80 ≤ b₁.toNat ∧ b₁.toNat ≤ 0xBF := by
    constructor
    · split at hlow₁ <;> omega
    · split at hhigh₁ <;> omega
  have hshortest : b.toNat = 0xF0 → 0x90 ≤ b₁.toNat := fun h => by rwa [if_pos h] at hlow₁
  have hscalar : b.toNat = 0xF4 → b₁.toNat ≤ 0x8F := fun h => by rwa [if_pos h] at hhigh₁
  clear hlow₁ hhigh₁
  rw [String.utf8EncodeChar, val_ofNat (by omega), if_neg (by omega), if_neg (by omega),
    if_neg (by omega), ofNat_eq_byte b (by omega), ofNat_eq_byte b₁ (by omega),
    ofNat_eq_byte b₂ (by omega), ofNat_eq_byte b₃ (by omega)]

end

/-- The scanner takes the bytes that a character is written with, and no others. -/
theorem encodeChar_of_scan {b : UInt8} {bs : List UInt8} {c : Char} {n : Nat}
    (h : scan b bs = (some c, n)) :
    n ≤ bs.length ∧ String.utf8EncodeChar c = b :: bs.take n := by
  unfold scan at h
  dsimp only at h
  split at h
  · next hlead =>
    obtain ⟨rfl, rfl⟩ : Char.ofNat b.toNat = c ∧ 0 = n := by simpa using h
    exact ⟨Nat.zero_le _, encodeChar_one hlead⟩
  · split at h
    · simp at h
    · split at h
      · obtain ⟨b₁, rest, rfl, hlow₁, hhigh₁, h⟩ := scanTail_eq_some h
        obtain ⟨hc, hn⟩ := scanTail_zero_eq h
        rw [hc, hn]
        exact ⟨Nat.le_add_left .., encodeChar_two (by omega) (by omega) hlow₁ hhigh₁⟩
      · split at h
        · obtain ⟨b₁, rest, rfl, hlow₁, hhigh₁, h⟩ := scanTail_eq_some h
          obtain ⟨b₂, rest, rfl, hlow₂, hhigh₂, h⟩ := scanTail_eq_some h
          obtain ⟨hc, hn⟩ := scanTail_zero_eq h
          rw [hc, hn]
          exact ⟨Nat.le_add_left ..,
            encodeChar_three (by omega) (by omega) hlow₁ hhigh₁ hlow₂ hhigh₂⟩
        · split at h
          · obtain ⟨b₁, rest, rfl, hlow₁, hhigh₁, h⟩ := scanTail_eq_some h
            obtain ⟨b₂, rest, rfl, hlow₂, hhigh₂, h⟩ := scanTail_eq_some h
            obtain ⟨b₃, rest, rfl, hlow₃, hhigh₃, h⟩ := scanTail_eq_some h
            obtain ⟨hc, hn⟩ := scanTail_zero_eq h
            rw [hc, hn]
            exact ⟨Nat.le_add_left ..,
              encodeChar_four (by omega) (by omega) hlow₁ hhigh₁ hlow₂ hhigh₂ hlow₃ hhigh₃⟩
          · simp at h

/-- An ill-formed part is no longer than the character that replaces it. -/
theorem scan_none_le {b : UInt8} {bs : List UInt8} {n : Nat} (h : scan b bs = (none, n)) :
    n < 3 ∧ n ≤ bs.length := by
  unfold scan at h
  dsimp only at h
  split at h
  · simp at h
  · split at h
    · obtain rfl : 0 = n := by simpa using h
      omega
    · split at h
      · have := scanTail_none_le h
        omega
      · split at h
        · have := scanTail_none_le h
          omega
        · split at h
          · have := scanTail_none_le h
            omega
          · obtain rfl : 0 = n := by simpa using h
            omega

theorem toList_decodeLossy (bs : List UInt8) :
    (decodeLossy bs).toList = (units bs).map (·.getD replacement) := by
  rw [decodeLossy, String.toList_ofList]

/-- Lossy text is no shorter than the bytes that it is read from. -/
theorem length_le_encode_decodeLossy (bs : List UInt8) :
    bs.length ≤ (encode (decodeLossy bs)).length := by
  rw [encode, toList_decodeLossy]
  fun_induction units bs with
  | case1 => exact Nat.zero_le _
  | case2 b bs ih =>
    rw [List.map_cons, List.flatMap_cons, List.length_append, List.length_cons]
    rw [List.length_drop] at ih
    cases hscan : scan b bs with
    | mk unit n =>
      rw [hscan] at ih
      cases unit with
      | some c =>
        obtain ⟨hn, hbytes⟩ := encodeChar_of_scan hscan
        have hlen : (String.utf8EncodeChar c).length = n + 1 := by
          rw [hbytes, List.length_cons, List.length_take_of_le hn]
        dsimp only [Option.getD] at ih ⊢
        omega
      | none =>
        obtain ⟨hn, hle⟩ := scan_none_le hscan
        have hlen : (String.utf8EncodeChar replacement).length = 3 := rfl
        dsimp only [Option.getD] at ih ⊢
        omega

/-- Bytes other than zero are never read as the character zero. -/
theorem zero_not_mem_decodeLossy {bs : List UInt8} (h : ∀ b ∈ bs, b ≠ 0) :
    '\x00' ∉ (decodeLossy bs).toList := by
  rw [toList_decodeLossy]
  fun_induction units bs with
  | case1 => exact List.not_mem_nil
  | case2 b bs ih =>
    obtain ⟨hb, hbs⟩ := List.forall_mem_cons.1 h
    rw [List.map_cons, List.mem_cons, not_or]
    refine ⟨?_, ih fun b' hb' => hbs b' (List.mem_of_mem_drop hb')⟩
    cases hscan : scan b bs with
    | mk unit n =>
      cases unit with
      | none => exact show ¬ '\x00' = replacement by decide
      | some c =>
        rintro rfl
        obtain ⟨-, hbytes⟩ := encodeChar_of_scan hscan
        obtain ⟨hzero, -⟩ := List.cons_eq_cons.1 hbytes
        exact hb hzero.symm

/-- Lossy text is written with the bytes that it is read from exactly if these are well-formed. -/
theorem encode_decodeLossy_eq_iff (bs : List UInt8) :
    encode (decodeLossy bs) = bs ↔ bs.toByteArray.IsValidUTF8 := by
  constructor
  · intro h
    exact ⟨(decodeLossy bs).toList, congrArg List.toByteArray h.symm⟩
  · rintro ⟨cs, hcs⟩
    have hencode : bs = encode (String.ofList cs) := by
      rw [encode, String.toList_ofList]
      exact List.toByteArray_inj.1 hcs
    rw [hencode, decodeLossy_encode]

end ReactorTrace.Text.Utf8
