/-! Little-endian numbers. A field of `width` bytes holds a number below `modulus width`, least
significant byte first; signed fields are two's complement words of the same width. Writing then
reading gives the number back when it fits, and reading then writing gives the bytes back. -/

namespace ReactorTrace.LittleEndian

/-- How many numbers a field of `width` bytes can hold. -/
def modulus : (width : Nat) → Nat
  | 0 => 1
  | width + 1 => 256 * modulus width

/-- Only the number modulo `modulus width` counts. -/
def encode : (width : Nat) → Nat → List UInt8
  | 0, _ => []
  | width + 1, n => UInt8.ofNat n :: encode width (n / 256)

def decode : List UInt8 → Nat
  | [] => 0
  | b :: bs => b.toNat + 256 * decode bs

@[simp] theorem length_encode (width n : Nat) : (encode width n).length = width := by
  induction width generalizing n with
  | zero => rfl
  | succ width ih => simp [encode, ih]

theorem decode_lt (bs : List UInt8) : decode bs < modulus bs.length := by
  induction bs with
  | nil => exact Nat.one_pos
  | cons b bs ih =>
    have hb := b.toNat_lt
    simp only [decode, List.length_cons, modulus]
    omega

theorem decode_encode (width n : Nat) : decode (encode width n) = n % modulus width := by
  induction width generalizing n with
  | zero => simp [encode, decode, modulus, Nat.mod_one]
  | succ width ih => rw [encode, decode, ih, UInt8.toNat_ofNat', modulus, Nat.mod_mul]

theorem encode_decode (bs : List UInt8) : encode bs.length (decode bs) = bs := by
  induction bs with
  | nil => rfl
  | cons b bs ih =>
    have hb := b.toNat_lt
    have hdiv : (b.toNat + 256 * decode bs) / 256 = decode bs := by omega
    have hmod : UInt8.ofNat (b.toNat + 256 * decode bs) = b := by
      apply UInt8.toNat_inj.1
      rw [UInt8.toNat_ofNat']
      omega
    simp only [decode, List.length_cons, encode, hdiv, hmod, ih]

/-! ### Words -/

def encodeInt32 (x : Int32) : List UInt8 := encode 4 x.toUInt32.toNat

def decodeInt32 (bs : List UInt8) : Int32 := (UInt32.ofNat (decode bs)).toInt32

def encodeInt64 (x : Int64) : List UInt8 := encode 8 x.toUInt64.toNat

def decodeInt64 (bs : List UInt8) : Int64 := (UInt64.ofNat (decode bs)).toInt64

def encodeUInt64 (x : UInt64) : List UInt8 := encode 8 x.toNat

def decodeUInt64 (bs : List UInt8) : UInt64 := UInt64.ofNat (decode bs)

@[simp] theorem decodeInt32_encodeInt32 (x : Int32) : decodeInt32 (encodeInt32 x) = x := by
  have h := x.toUInt32.toNat_lt
  simp only [decodeInt32, encodeInt32, decode_encode]
  rw [Nat.mod_eq_of_lt (show _ < modulus 4 from h), UInt32.ofNat_toNat, Int32.toInt32_toUInt32]

@[simp] theorem decodeInt64_encodeInt64 (x : Int64) : decodeInt64 (encodeInt64 x) = x := by
  have h := x.toUInt64.toNat_lt
  simp only [decodeInt64, encodeInt64, decode_encode]
  rw [Nat.mod_eq_of_lt (show _ < modulus 8 from h), UInt64.ofNat_toNat, Int64.toInt64_toUInt64]

@[simp] theorem decodeUInt64_encodeUInt64 (x : UInt64) : decodeUInt64 (encodeUInt64 x) = x := by
  have h := x.toNat_lt
  simp only [decodeUInt64, encodeUInt64, decode_encode]
  rw [Nat.mod_eq_of_lt (show _ < modulus 8 from h), UInt64.ofNat_toNat]

theorem encodeInt32_decodeInt32 {bs : List UInt8} (h : bs.length = 4) :
    encodeInt32 (decodeInt32 bs) = bs := by
  have hlt : decode bs < modulus 4 := h ▸ decode_lt bs
  have hmod : (UInt32.ofNat (decode bs)).toNat = decode bs := by
    rw [UInt32.toNat_ofNat']
    exact Nat.mod_eq_of_lt hlt
  rw [encodeInt32, decodeInt32, UInt32.toUInt32_toInt32, hmod, ← h, encode_decode]

theorem encodeInt64_decodeInt64 {bs : List UInt8} (h : bs.length = 8) :
    encodeInt64 (decodeInt64 bs) = bs := by
  have hlt : decode bs < modulus 8 := h ▸ decode_lt bs
  have hmod : (UInt64.ofNat (decode bs)).toNat = decode bs := by
    rw [UInt64.toNat_ofNat']
    exact Nat.mod_eq_of_lt hlt
  rw [encodeInt64, decodeInt64, UInt64.toUInt64_toInt64, hmod, ← h, encode_decode]

theorem encodeUInt64_decodeUInt64 {bs : List UInt8} (h : bs.length = 8) :
    encodeUInt64 (decodeUInt64 bs) = bs := by
  have hlt : decode bs < modulus 8 := h ▸ decode_lt bs
  have hmod : (UInt64.ofNat (decode bs)).toNat = decode bs := by
    rw [UInt64.toNat_ofNat']
    exact Nat.mod_eq_of_lt hlt
  rw [encodeUInt64, decodeUInt64, hmod, ← h, encode_decode]

/-! ### Counts -/

theorem toInt_decodeInt32 (bs : List UInt8) :
    (decodeInt32 bs).toInt = Int.bmod (decode bs) 4294967296 := Int32.toInt_ofNat'

/-- A count in the nonnegative half of a signed field reads back. -/
theorem toInt_decodeInt32_encode {n : Nat} (h : n ≤ 2147483647) :
    (decodeInt32 (encode 4 n)).toInt = n := by
  have hmod : n % modulus 4 = n := Nat.mod_eq_of_lt (by simp only [modulus]; omega)
  rw [toInt_decodeInt32, decode_encode, hmod, Int.bmod_def]
  omega

theorem decodeInt32_encode_nonneg {n : Nat} (h : n ≤ 2147483647) : 0 ≤ decodeInt32 (encode 4 n) := by
  rw [Int32.le_iff_toInt_le, toInt_decodeInt32_encode h]
  exact Int.natCast_nonneg n

theorem toNat_decodeInt32_le (bs : List UInt8) : (decodeInt32 bs).toInt.toNat ≤ 2147483647 := by
  rw [toInt_decodeInt32, Int.bmod_def]
  omega

theorem encode_decodeInt32 {bs : List UInt8} (hlen : bs.length = 4) (h : 0 ≤ (decodeInt32 bs).toInt) :
    encode 4 (decodeInt32 bs).toInt.toNat = bs := by
  have hlt : decode bs < modulus 4 := hlen ▸ decode_lt bs
  simp only [modulus] at hlt
  have heq : (decodeInt32 bs).toInt.toNat = decode bs := by
    rw [toInt_decodeInt32, Int.bmod_def] at h ⊢
    omega
  rw [heq, ← hlen, encode_decode]

theorem encode_inj {width n m : Nat} (hn : n < modulus width) (hm : m < modulus width)
    (h : encode width n = encode width m) : n = m := by
  have hd := congrArg decode h
  rwa [decode_encode, decode_encode, Nat.mod_eq_of_lt hn, Nat.mod_eq_of_lt hm] at hd

@[simp] theorem length_encodeInt32 (x : Int32) : (encodeInt32 x).length = 4 := length_encode ..

@[simp] theorem length_encodeInt64 (x : Int64) : (encodeInt64 x).length = 8 := length_encode ..

@[simp] theorem length_encodeUInt64 (x : UInt64) : (encodeUInt64 x).length = 8 := length_encode ..

end ReactorTrace.LittleEndian
