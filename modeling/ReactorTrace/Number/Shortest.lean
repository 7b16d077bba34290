import ReactorTrace.Number.Binary64

/-! Decimal text of double-precision numbers: the fewest digits that read back as the number, and of
those the nearest to it. Digits are looked for on coarser to finer decimal grids; on each grid the
two neighbours of the number are tried. -/

namespace ReactorTrace.Binary64

/-- The digits of a decimal number, most significant first, and the power of ten of the last. -/
structure Digits where
  digits : List Char
  scale : Int
deriving DecidableEq, Inhabited

/-- The power `10 ^ k` as a quotient of natural numbers. -/
def powerOfTen (k : Int) : Nat × Nat :=
  if 0 ≤ k then (Nat.pow 10 k.toNat, 1) else (1, Nat.pow 10 (-k).toNat)

/-- Whether `candidate * 10 ^ scale` rounds to `x`. The bounds are half-way to the neighbours of
`x`, the lower of which is nearer below a power of two, and belong to `x` when its mantissa is
even. -/
def readsBack (x : Binary64) (candidate : Nat) (scale : Int) : Bool :=
  let (up, down) := powerOfTwo (x.exponent - 2)
  let (tenUp, tenDown) := powerOfTen scale
  let value := candidate * tenUp * down
  let unit := up * tenDown
  let gapBelow := if x.mantissa = minMantissa ∧ minExponent < x.exponent then 1 else 2
  let low := (4 * x.mantissa - gapBelow) * unit
  let high := (4 * x.mantissa + 2) * unit
  if x.mantissa % 2 = 0 then decide (low ≤ value ∧ value ≤ high)
  else decide (low < value ∧ value < high)

/-- The neighbours of `x` on the grid of multiples of `10 ^ scale` that read back as `x`, the nearer
one first; of two equally near ones the even one. -/
def onGrid (x : Binary64) (scale : Int) : Option Nat :=
  let (tenUp, tenDown) := powerOfTen scale
  let num := x.numerator * tenDown
  let den := x.denominator * tenUp
  let below := num / den
  let nearest := roundHalfEven num den
  let other := if nearest = below then below + 1 else below
  if readsBack x nearest scale then some nearest
  else if readsBack x other scale then some other
  else none

/-- The number of digits before the decimal point, negative with zeros after it. -/
def pointPosition (x : Binary64) : Int :=
  let scaled := x.numerator * Nat.pow 10 400 / x.denominator
  ((Nat.toDigits 10 scaled).length : Int) - 400

/-- The digits of `n * 10 ^ scale` without zeros at the end. -/
def Digits.ofNat (n : Nat) (scale : Int) : Digits :=
  let ds := Nat.toDigits 10 n
  let zeros := (ds.reverse.takeWhile (· = '0')).length
  ⟨ds.take (ds.length - zeros), scale + zeros⟩

/-- Tries `tries` grids, beginning with the one on which `x` has `count` digits. -/
def search (x : Binary64) (position : Int) : (tries count : Nat) → Digits
  | 0, count => ⟨['0'], position - count⟩
  | tries + 1, count =>
    match onGrid x (position - count) with
    | some n => .ofNat n (position - count)
    | none => search x position tries (count + 1)

/-- Seventeen digits always read back. -/
def shortest (x : Binary64) : Digits := search x x.pointPosition 17 1

/-- The layout of the digits: with a point in them or zeros around them where the number of digits
before the point is between -4 and 16, and otherwise with one digit before the point and an
exponent, which has its sign. -/
def Digits.render (d : Digits) : String :=
  let count : Int := d.digits.length
  let point := count + d.scale
  if 0 ≤ d.scale ∧ point ≤ 16 then
    String.ofList (d.digits ++ List.replicate d.scale.toNat '0') ++ ".0"
  else if 0 < point ∧ point ≤ 16 then
    String.ofList (d.digits.take point.toNat) ++ "." ++ String.ofList (d.digits.drop point.toNat)
  else if -5 < point ∧ point ≤ 0 then
    "0." ++ String.ofList (List.replicate (-point).toNat '0' ++ d.digits)
  else
    let fraction := d.digits.drop 1
    let mantissa := String.ofList (d.digits.take 1) ++
      if fraction.isEmpty then "" else "." ++ String.ofList fraction
    let exponent := point - 1
    mantissa ++ (if 0 ≤ exponent then "e+" else "e") ++ exponent.repr

def render (x : Binary64) : String := if x.isZero then "0.0" else x.shortest.render

end ReactorTrace.Binary64
