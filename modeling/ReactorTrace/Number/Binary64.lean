/-! Magnitudes of double-precision numbers, as exact dyadic fractions, and rounding to them. All
arithmetic is on natural numbers: a sum of powers of two is compared with a quotient by
cross-multiplication. -/

namespace ReactorTrace

/-- The number `mantissa * 2 ^ exponent`. A nonzero mantissa has 53 bits, except at the smallest
exponent, where it may have fewer. -/
structure Binary64 where
  mantissa : Nat
  exponent : Int
deriving DecidableEq, Inhabited

namespace Binary64

def minExponent : Int := -1074

def maxExponent : Int := 971

/-- The least mantissa of 53 bits, and the least of 54 bits. -/
def minMantissa : Nat := 4503599627370496

def mantissaBound : Nat := 9007199254740992

def zero : Binary64 := ⟨0, minExponent⟩

def isZero (x : Binary64) : Bool := x.mantissa == 0

/-- The power `2 ^ e` as a quotient of natural numbers. -/
def powerOfTwo (e : Int) : Nat × Nat :=
  if 0 ≤ e then (Nat.pow 2 e.toNat, 1) else (1, Nat.pow 2 (-e).toNat)

def numerator (x : Binary64) : Nat := x.mantissa * (powerOfTwo x.exponent).1

def denominator (x : Binary64) : Nat := (powerOfTwo x.exponent).2

/-- The integer nearest to `num / den`; a half goes to the even neighbour. -/
def roundHalfEven (num den : Nat) : Nat :=
  let q := num / den
  let twice := 2 * (num % den)
  if den < twice ∨ (twice = den ∧ q % 2 = 1) then q + 1 else q

/-- The exponent at which `num / den` has a 53-bit integer part, or the smallest exponent. -/
def scaleOf (num den : Nat) : Int :=
  let e : Int := (Nat.log2 num : Int) - (Nat.log2 den : Int) - 53
  let (up, down) := powerOfTwo e
  let e := if mantissaBound * (den * up) ≤ num * down then e + 1 else e
  max e minExponent

/-- The number nearest to `num / den`, ties to even, or `none` past the largest one. -/
def ofQuotient? (num den : Nat) : Option Binary64 :=
  if num = 0 then some zero
  else
    let e := scaleOf num den
    let (up, down) := powerOfTwo e
    let m := roundHalfEven (num * down) (den * up)
    let x : Binary64 := if m = mantissaBound then ⟨minMantissa, e + 1⟩ else ⟨m, e⟩
    if maxExponent < x.exponent then none else some x

def ofNat? (n : Nat) : Option Binary64 := ofQuotient? n 1

def mul? (x y : Binary64) : Option Binary64 :=
  ofQuotient? (x.numerator * y.numerator) (x.denominator * y.denominator)

def div? (x y : Binary64) : Option Binary64 :=
  ofQuotient? (x.numerator * y.denominator) (x.denominator * y.numerator)

/-- The largest power of ten that is a number. -/
def maxTenExponent : Nat := 308

def ofTenPower? (k : Nat) : Option Binary64 := ofNat? (Nat.pow 10 k)

/-- Divides by `10 ^ k`, by `10 ^ 308` at a time, rounding every quotient. -/
def divTenPower? (x : Binary64) (k : Nat) : Option Binary64 :=
  if x.isZero then some x
  else if k ≤ maxTenExponent then (ofTenPower? k).bind x.div?
  else ((ofTenPower? maxTenExponent).bind x.div?).bind (divTenPower? · (k - maxTenExponent))
termination_by k
decreasing_by simp only [maxTenExponent] at *; omega

/-- The number read from `significand * 10 ^ exponent`: both factors are rounded before they are
multiplied or divided, so that it may differ from the nearest number in its last bits. -/
def ofDecimal? (significand : Nat) (exponent : Int) : Option Binary64 :=
  (ofNat? significand).bind fun x =>
    if exponent < 0 then x.divTenPower? (-exponent).toNat
    else if x.isZero then some x
    else if maxTenExponent < exponent.toNat then none
    else (ofTenPower? exponent.toNat).bind x.mul?

end Binary64

end ReactorTrace
