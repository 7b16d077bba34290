/-! String literals of JSON. Inside the quotes a backslash starts an escape, control characters
are not allowed, and every other character stands for itself. A character past `FFFF` may be escaped
as a pair of surrogates; a surrogate on its own is not a character. -/

namespace ReactorTrace.Json.StringLiteral

def hexValue? (c : Char) : Option Nat :=
  if '0' ≤ c ∧ c ≤ '9' then some (c.toNat - '0'.toNat)
  else if 'a' ≤ c ∧ c ≤ 'f' then some (c.toNat - 'a'.toNat + 10)
  else if 'A' ≤ c ∧ c ≤ 'F' then some (c.toNat - 'A'.toNat + 10)
  else none

/-- The 16-bit unit written with four hexadecimal digits. -/
def unit? (a b c d : Char) : Option Nat := do
  let a ← hexValue? a
  let b ← hexValue? b
  let c ← hexValue? c
  let d ← hexValue? d
  return ((a * 16 + b) * 16 + c) * 16 + d

def isHighSurrogate (n : Nat) : Bool := decide (0xD800 ≤ n ∧ n < 0xDC00)

def isLowSurrogate (n : Nat) : Bool := decide (0xDC00 ≤ n ∧ n < 0xE000)

def surrogatePair (high low : Nat) : Char :=
  Char.ofNat (0x10000 + (high - 0xD800) * 0x400 + (low - 0xDC00))

/-- Escapes of a single character after the backslash. -/
def shortEscape? : Char → Option Char
  | '"' => some '"'
  | '\\' => some '\\'
  | '/' => some '/'
  | 'b' => some '\x08'
  | 'f' => some '\x0C'
  | 'n' => some '\n'
  | 'r' => some '\r'
  | 't' => some '\t'
  | _ => none

/-- The character that starts the text of a literal, which does not start with the closing quote,
and the text after it. -/
def character? : List Char → Option (Char × List Char)
  | '\\' :: 'u' :: a :: b :: c :: d :: rest =>
    match unit? a b c d with
    | none => none
    | some n =>
      if isLowSurrogate n then none
      else if isHighSurrogate n then
        match rest with
        | '\\' :: 'u' :: e :: f :: g :: h :: rest =>
          match unit? e f g h with
          | none => none
          | some m => if isLowSurrogate m then some (surrogatePair n m, rest) else none
        | _ => none
      else some (Char.ofNat n, rest)
  | '\\' :: c :: rest => (shortEscape? c).map (·, rest)
  | ['\\'] => none
  | c :: rest => if c < ' ' then none else some (c, rest)
  | [] => none

theorem length_character? {cs rest : List Char} {c : Char} (h : character? cs = some (c, rest)) :
    rest.length < cs.length := by
  unfold character? at h
  split at h
  · split at h
    · simp at h
    · split at h
      · simp at h
      · split at h
        · split at h
          · split at h
            · simp at h
            · split at h
              · simp only [Option.some.injEq, Prod.mk.injEq] at h
                rw [← h.2]
                simp only [List.length_cons]
                omega
              · simp at h
          · simp at h
        · simp only [Option.some.injEq, Prod.mk.injEq] at h
          rw [← h.2]
          simp only [List.length_cons]
          omega
  · simp only [Option.map_eq_some_iff, Prod.mk.injEq] at h
    obtain ⟨-, -, -, rfl⟩ := h
    simp only [List.length_cons]
    omega
  · simp at h
  · split at h
    · simp at h
    · simp only [Option.some.injEq, Prod.mk.injEq] at h
      rw [← h.2]
      simp
  · simp at h

/-- The text of a literal whose opening quote is already read, and what follows its closing
quote. -/
def read? (cs : List Char) : Option (List Char × List Char) :=
  match cs with
  | '"' :: rest => some ([], rest)
  | cs =>
    match _h : character? cs with
    | none => none
    | some (c, rest) => (read? rest).map fun (text, after) => (c :: text, after)
termination_by cs.length
decreasing_by exact length_character? _h

theorem length_read? {cs text after : List Char} (h : read? cs = some (text, after)) :
    after.length < cs.length := by
  fun_induction read? cs generalizing text with
  | case1 rest =>
    simp only [Option.some.injEq, Prod.mk.injEq] at h
    simp [← h.2]
  | case2 => simp at h
  | case3 cs hq c rest hc ih =>
    simp only [Option.map_eq_some_iff, Prod.mk.injEq, Prod.exists] at h
    obtain ⟨t, a, hr, -, rfl⟩ := h
    exact Nat.lt_trans (ih hr) (length_character? hc)

end ReactorTrace.Json.StringLiteral
