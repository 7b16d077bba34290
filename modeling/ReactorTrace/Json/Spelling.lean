import ReactorTrace.Json.Token

/-! Spellings of JSON, as its grammar has them. A character of a string stands for itself, or is escaped by a
short escape or by the 16-bit units of its code, of which there are two past `FFFF`; control characters,
quotes and backslashes must be escaped. Whitespace may stand before and behind every token. -/

namespace ReactorTrace.Json

/-- Digits of either case, with their values. -/
def hexDigits : List (Char × Nat) :=
  [('0', 0), ('1', 1), ('2', 2), ('3', 3), ('4', 4), ('5', 5), ('6', 6), ('7', 7), ('8', 8), ('9', 9),
    ('a', 10), ('b', 11), ('c', 12), ('d', 13), ('e', 14), ('f', 15),
    ('A', 10), ('B', 11), ('C', 12), ('D', 13), ('E', 14), ('F', 15)]

/-- The characters behind the backslash of a short escape, with what they stand for. -/
def shortEscapes : List (Char × Char) :=
  [('"', '"'), ('\\', '\\'), ('/', '/'), ('b', '\x08'), ('f', '\x0C'), ('n', '\n'), ('r', '\r'),
    ('t', '\t')]

def whitespace : List Char := [' ', '\n', '\t', '\r']

/-- A 16-bit unit is written with four digits. -/
inductive UnitSpelling : Nat → List Char → Prop
  | digits {a b c d : Nat} {w x y z : Char} (hw : (w, a) ∈ hexDigits) (hx : (x, b) ∈ hexDigits)
      (hy : (y, c) ∈ hexDigits) (hz : (z, d) ∈ hexDigits) :
      UnitSpelling (((a * 16 + b) * 16 + c) * 16 + d) ['\\', 'u', w, x, y, z]

inductive CharacterSpelling : Char → List Char → Prop
  | plain {c : Char} (hcontrol : ' ' ≤ c) (hquote : c ≠ '"') (hbackslash : c ≠ '\\') :
      CharacterSpelling c [c]
  | short {c e : Char} (h : (e, c) ∈ shortEscapes) : CharacterSpelling c ['\\', e]
  | unit {c : Char} {spelling : List Char} (h : UnitSpelling c.toNat spelling) :
      CharacterSpelling c spelling
  | pair {c : Char} {high low : List Char} (hlarge : 0xFFFF < c.toNat)
      (hhigh : UnitSpelling (0xD800 + (c.toNat - 0x10000) / 0x400) high)
      (hlow : UnitSpelling (0xDC00 + (c.toNat - 0x10000) % 0x400) low) :
      CharacterSpelling c (high ++ low)

/-- The text of a string, without the quotes around it. -/
inductive TextSpelling : List Char → List Char → Prop
  | nil : TextSpelling [] []
  | cons {c : Char} {cs spelling more : List Char} (hc : CharacterSpelling c spelling)
      (hcs : TextSpelling cs more) : TextSpelling (c :: cs) (spelling ++ more)

/-- The tokens of objects and arrays of strings. -/
inductive TokenSpelling : Token → List Char → Prop
  | openBrace : TokenSpelling .openBrace ['\x7b']
  | closeBrace : TokenSpelling .closeBrace ['\x7d']
  | openBracket : TokenSpelling .openBracket ['[']
  | closeBracket : TokenSpelling .closeBracket [']']
  | colon : TokenSpelling .colon [':']
  | comma : TokenSpelling .comma [',']
  | text {value : String} {spelling : List Char} (h : TextSpelling value.toList spelling) :
      TokenSpelling (.text value) ('"' :: spelling ++ ['"'])

/-- Tokens in a row, with whitespace around them. -/
inductive Spelled : List Token → List Char → Prop
  | nil : Spelled [] []
  | blank {c : Char} {tokens : List Token} {cs : List Char} (hblank : c ∈ whitespace)
      (h : Spelled tokens cs) : Spelled tokens (c :: cs)
  | token {t : Token} {tokens : List Token} {spelling cs : List Char} (ht : TokenSpelling t spelling)
      (h : Spelled tokens cs) : Spelled (t :: tokens) (spelling ++ cs)

end ReactorTrace.Json
