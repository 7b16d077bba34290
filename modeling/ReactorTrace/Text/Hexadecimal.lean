/-! Lowercase hexadecimal text, most significant digit first. Text of a fixed width reads back as the number
that it was written from, if that has no more digits (`read?_padded`). -/

namespace ReactorTrace.Text.Hexadecimal

def digit (n : Nat) : Char :=
  if n < 10 then Char.ofNat ('0'.toNat + n) else Char.ofNat ('a'.toNat + (n - 10))

/-- Exactly `width` digits, of the number modulo `16 ^ width`. -/
def padded : (width : Nat) → Nat → List Char
  | 0, _ => []
  | width + 1, n => padded width (n / 16) ++ [digit (n % 16)]

/-- As many digits as the number needs, at least one. -/
def digits (n : Nat) : List Char :=
  if n < 16 then [digit n] else digits (n / 16) ++ [digit (n % 16)]

/-- Each digit stands at the position of its value. -/
def alphabet : List Char := "0123456789abcdef".toList

/-- The number with these digits. -/
def read? (cs : List Char) : Option Nat :=
  cs.foldlM (fun n c => (alphabet.idxOf? c).map (16 * n + ·)) 0

@[simp] theorem length_padded (width n : Nat) : (padded width n).length = width := by
  induction width generalizing n with
  | zero => rfl
  | succ width ih => simp [padded, ih]

theorem idxOf?_digit : ∀ n < 16, alphabet.idxOf? (digit n) = some n := by decide

theorem digit_mem : ∀ n < 16, digit n ∈ alphabet := by decide

theorem mem_alphabet_of_mem_padded {width n : Nat} {c : Char} (h : c ∈ padded width n) :
    c ∈ alphabet := by
  induction width generalizing n with
  | zero => simp [padded] at h
  | succ width ih =>
    simp only [padded, List.mem_append, List.mem_singleton] at h
    rcases h with h | rfl
    · exact ih h
    · exact digit_mem _ (Nat.mod_lt _ (by decide))

theorem read?_concat (cs : List Char) (c : Char) :
    read? (cs ++ [c]) = (read? cs).bind fun n => (alphabet.idxOf? c).map (16 * n + ·) := by
  simp [read?, List.foldlM_append]

theorem read?_padded (width n : Nat) : read? (padded width n) = some (n % Nat.pow 16 width) := by
  induction width generalizing n with
  | zero => simp [padded, read?, Nat.mod_one]
  | succ width ih =>
    have hpow : Nat.pow 16 (width + 1) = 16 * Nat.pow 16 width := Nat.mul_comm ..
    rw [padded, read?_concat, ih, idxOf?_digit _ (Nat.mod_lt _ (by decide)), hpow, Nat.mod_mul]
    simp [Nat.add_comm]

end ReactorTrace.Text.Hexadecimal
