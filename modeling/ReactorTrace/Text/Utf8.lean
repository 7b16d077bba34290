/-! UTF-8 text. `scan` reads one character off the front of a byte string and says how many bytes
it took. Where the bytes form no character it stops after the longest part that could begin one,
so that an ill-formed string splits into characters and maximal ill-formed parts in one way.
`decodeLossy` shows each such part as one replacement character; `decode?` accepts none. -/

namespace ReactorTrace.Text.Utf8

def encode (text : String) : List UInt8 := text.toList.flatMap String.utf8EncodeChar

/-- Reads `more` further bytes into `value`, the first of them between `low` and `high` and the
others any continuation byte; `taken` counts them. There is no character when one is missing. -/
def scanTail : (more low high value taken : Nat) → List UInt8 → Option Char × Nat
  | 0, _, _, value, taken, _ => (some (Char.ofNat value), taken)
  | _ + 1, _, _, _, taken, [] => (none, taken)
  | more + 1, low, high, value, taken, b :: bs =>
    if low ≤ b.toNat ∧ b.toNat ≤ high then
      scanTail more 0x80 0xBF (64 * value + (b.toNat - 0x80)) (taken + 1) bs
    else (none, taken)

/-- The character that starts with the byte `b`, if any, and the number of bytes of `bs` it takes.
The range of the second byte excludes long spellings, surrogates and values past `10FFFF`. -/
def scan (b : UInt8) (bs : List UInt8) : Option Char × Nat :=
  let lead := b.toNat
  if lead < 0x80 then (some (Char.ofNat lead), 0)
  else if lead < 0xC2 then (none, 0)
  else if lead < 0xE0 then scanTail 1 0x80 0xBF (lead - 0xC0) 0 bs
  else if lead < 0xF0 then
    scanTail 2 (if lead = 0xE0 then 0xA0 else 0x80) (if lead = 0xED then 0x9F else 0xBF)
      (lead - 0xE0) 0 bs
  else if lead < 0xF5 then
    scanTail 3 (if lead = 0xF0 then 0x90 else 0x80) (if lead = 0xF4 then 0x8F else 0xBF)
      (lead - 0xF0) 0 bs
  else (none, 0)

/-- The characters of a byte string, `none` for each maximal ill-formed part. -/
def units : List UInt8 → List (Option Char)
  | [] => []
  | b :: bs => (scan b bs).1 :: units (bs.drop (scan b bs).2)
termination_by bs => bs.length
decreasing_by simp only [List.length_drop, List.length_cons]; omega

def replacement : Char := '\uFFFD'

def decodeLossy (bs : List UInt8) : String :=
  String.ofList ((units bs).map (·.getD replacement))

def decode? (bs : List UInt8) : Option String :=
  if (units bs).all Option.isSome then some (decodeLossy bs) else none

end ReactorTrace.Text.Utf8
