import ReactorTrace.Number.Binary64

/-! Number literals of JSON. A literal without fraction and exponent is an integer when it fits in
64 bits, unsigned or, with a minus sign, signed and not zero. Every other literal is a double, read
from as many of its leading digits as fit in 64 bits. -/

namespace ReactorTrace.Json

/-- The digits of a literal; the exponent is a sign and digits. -/
structure NumberLiteral where
  negative : Bool
  whole : List Char
  fraction : Option (List Char)
  exponent : Option (Bool × List Char)
deriving DecidableEq, Inhabited

inductive Number
  | integer (value : Int)
  | float (negative : Bool) (magnitude : Binary64)
deriving DecidableEq, Inhabited

namespace NumberLiteral

/-- A run of at least one digit, and what follows it. -/
def digits? (cs : List Char) : Option (List Char × List Char) :=
  if (cs.takeWhile Char.isDigit).isEmpty then none
  else some (cs.takeWhile Char.isDigit, cs.dropWhile Char.isDigit)

theorem length_digits? {cs ds rest : List Char} (h : digits? cs = some (ds, rest)) :
    rest.length < cs.length := by
  unfold digits? at h
  split at h
  · simp at h
  · rename_i hne
    simp only [Option.some.injEq, Prod.mk.injEq] at h
    have hlen := congrArg List.length
      (List.takeWhile_append_dropWhile (p := Char.isDigit) (l := cs))
    rw [List.length_append, h.1, h.2] at hlen
    rw [h.1] at hne
    cases ds with
    | nil => simp at hne
    | cons d ds =>
      rw [List.length_cons] at hlen
      omega

/-- The whole part does not start with a zero, unless it is zero. -/
def whole? (cs : List Char) : Option (List Char × List Char) :=
  match digits? cs with
  | some ('0' :: _ :: _, _) => none
  | r => r

def fraction? : List Char → Option (Option (List Char) × List Char)
  | '.' :: cs => (digits? cs).map fun (ds, rest) => (some ds, rest)
  | cs => some (none, cs)

def exponentDigits? : List Char → Option ((Bool × List Char) × List Char)
  | '+' :: cs => (digits? cs).map fun (ds, rest) => ((false, ds), rest)
  | '-' :: cs => (digits? cs).map fun (ds, rest) => ((true, ds), rest)
  | cs => (digits? cs).map fun (ds, rest) => ((false, ds), rest)

def exponent? : List Char → Option (Option (Bool × List Char) × List Char)
  | 'e' :: cs | 'E' :: cs => (exponentDigits? cs).map fun (e, rest) => (some e, rest)
  | cs => some (none, cs)

def unsigned? (negative : Bool) (cs : List Char) : Option (NumberLiteral × List Char) :=
  match whole? cs with
  | none => none
  | some (whole, cs) =>
    match fraction? cs with
    | none => none
    | some (fraction, cs) =>
      (exponent? cs).map fun (exponent, rest) => (⟨negative, whole, fraction, exponent⟩, rest)

/-- The literal at the front of a text, and what follows it. -/
def read? : List Char → Option (NumberLiteral × List Char)
  | '-' :: cs => unsigned? true cs
  | cs => unsigned? false cs

/-! ### Value -/

def digitValue (c : Char) : Nat := c.toNat - '0'.toNat

def ofDigits (ds : List Char) : Nat := ds.foldl (fun n d => 10 * n + digitValue d) 0

/-- The largest number of 64 bits. -/
def maxSignificand : Nat := 18446744073709551615

/-- The largest magnitude of a negative number of 64 bits. -/
def maxNegative : Nat := 9223372036854775808

/-- Takes digits of the whole part into the significand while it fits; every digit left out counts
as a power of ten. -/
def takeWhole : (significand : Nat) → List Char → Nat × Nat
  | n, [] => (n, 0)
  | n, d :: ds =>
    if 10 * n + digitValue d ≤ maxSignificand then takeWhole (10 * n + digitValue d) ds
    else (n, ds.length + 1)

/-- Takes digits of the fraction while they fit, and counts them; the rest are dropped. -/
def takeFraction : (significand : Nat) → List Char → Nat × Nat
  | n, [] => (n, 0)
  | n, d :: ds =>
    if 10 * n + digitValue d ≤ maxSignificand then
      let (m, taken) := takeFraction (10 * n + digitValue d) ds
      (m, taken + 1)
    else (n, 0)

def exponentValue : Option (Bool × List Char) → Int
  | none => 0
  | some (true, ds) => -(ofDigits ds : Int)
  | some (false, ds) => ofDigits ds

/-- The double that the literal stands for, or `none` when it is too large. -/
def float? (literal : NumberLiteral) : Option Binary64 :=
  let (n, dropped) := takeWhole 0 literal.whole
  let (n, taken) := takeFraction n (literal.fraction.getD [])
  Binary64.ofDecimal? n (dropped - taken + exponentValue literal.exponent)

def integer? (literal : NumberLiteral) : Option Int :=
  let n := ofDigits literal.whole
  if literal.fraction.isSome || literal.exponent.isSome then none
  else if literal.negative then if 0 < n ∧ n ≤ maxNegative then some (-n) else none
  else if n ≤ maxSignificand then some n
  else none

def value? (literal : NumberLiteral) : Option Number :=
  match literal.integer? with
  | some n => some (.integer n)
  | none => literal.float?.map (.float literal.negative)

/-! ### Progress -/

theorem length_whole? {cs ds rest : List Char} (h : whole? cs = some (ds, rest)) :
    rest.length < cs.length := by
  unfold whole? at h
  split at h
  · simp at h
  · exact length_digits? h

theorem length_fraction? {cs rest : List Char} {ds : Option (List Char)}
    (h : fraction? cs = some (ds, rest)) : rest.length ≤ cs.length := by
  unfold fraction? at h
  split at h
  · simp only [Option.map_eq_some_iff, Prod.mk.injEq, Prod.exists] at h
    obtain ⟨a, b, hd, -, rfl⟩ := h
    have := length_digits? hd
    simp only [List.length_cons]
    omega
  · simp only [Option.some.injEq, Prod.mk.injEq] at h
    simp [h.2]

theorem length_exponentDigits? {cs rest : List Char} {e : Bool × List Char}
    (h : exponentDigits? cs = some (e, rest)) : rest.length ≤ cs.length := by
  unfold exponentDigits? at h
  split at h <;>
  · simp only [Option.map_eq_some_iff, Prod.mk.injEq, Prod.exists] at h
    obtain ⟨a, b, hd, -, rfl⟩ := h
    grind [length_digits? hd]

theorem length_exponent? {cs rest : List Char} {e : Option (Bool × List Char)}
    (h : exponent? cs = some (e, rest)) : rest.length ≤ cs.length := by
  unfold exponent? at h
  split at h
  · simp only [Option.map_eq_some_iff, Prod.mk.injEq, Prod.exists] at h
    obtain ⟨a, b, c, hd, -, rfl⟩ := h
    have := length_exponentDigits? hd
    simp only [List.length_cons]
    omega
  · simp only [Option.map_eq_some_iff, Prod.mk.injEq, Prod.exists] at h
    obtain ⟨a, b, c, hd, -, rfl⟩ := h
    have := length_exponentDigits? hd
    simp only [List.length_cons]
    omega
  · simp only [Option.some.injEq, Prod.mk.injEq] at h
    simp [h.2]

theorem length_unsigned? {negative : Bool} {cs rest : List Char} {literal : NumberLiteral}
    (h : unsigned? negative cs = some (literal, rest)) : rest.length < cs.length := by
  unfold unsigned? at h
  split at h
  · simp at h
  · rename_i hw
    split at h
    · simp at h
    · rename_i hf
      simp only [Option.map_eq_some_iff, Prod.mk.injEq, Prod.exists] at h
      obtain ⟨e, r, he, -, rfl⟩ := h
      have := length_whole? hw
      have := length_fraction? hf
      have := length_exponent? he
      omega

theorem length_read? {cs rest : List Char} {literal : NumberLiteral}
    (h : read? cs = some (literal, rest)) : rest.length < cs.length := by
  unfold read? at h
  split at h
  · have := length_unsigned? h
    simp only [List.length_cons]
    omega
  · exact length_unsigned? h

end NumberLiteral

end ReactorTrace.Json
