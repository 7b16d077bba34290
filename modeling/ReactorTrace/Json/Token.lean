import ReactorTrace.Json.NumberLiteral
import ReactorTrace.Json.StringLiteral

/-! Tokens of JSON text. Scanning stops at the first place where no token starts, with a token
`bad`; since the tokens before it are there, an error that they cause comes first. -/

namespace ReactorTrace.Json

inductive Token
  | openBrace
  | closeBrace
  | openBracket
  | closeBracket
  | colon
  | comma
  | text (value : String)
  | number (value : Number)
  | boolean (value : Bool)
  | null
  | bad
deriving DecidableEq, Inhabited

namespace Token

def isBlank (c : Char) : Bool := c == ' ' || c == '\n' || c == '\t' || c == '\r'

/-- The number that the text starts with. One that is too large is no token. -/
def number? (cs : List Char) : Option (Token × List Char) :=
  match NumberLiteral.read? cs with
  | none => none
  | some (literal, rest) => literal.value?.map fun value => (number value, rest)

/-- The token that the text starts with, and what follows it. -/
def next? : List Char → Option (Token × List Char)
  | '\x7b' :: cs => some (openBrace, cs)
  | '\x7d' :: cs => some (closeBrace, cs)
  | '[' :: cs => some (openBracket, cs)
  | ']' :: cs => some (closeBracket, cs)
  | ':' :: cs => some (colon, cs)
  | ',' :: cs => some (comma, cs)
  | '"' :: cs =>
    (StringLiteral.read? cs).map fun (value, rest) => (text (String.ofList value), rest)
  | 't' :: 'r' :: 'u' :: 'e' :: cs => some (boolean true, cs)
  | 'f' :: 'a' :: 'l' :: 's' :: 'e' :: cs => some (boolean false, cs)
  | 'n' :: 'u' :: 'l' :: 'l' :: cs => some (null, cs)
  | cs => number? cs

theorem length_number? {cs rest : List Char} {t : Token} (h : number? cs = some (t, rest)) :
    rest.length < cs.length := by
  unfold number? at h
  split at h
  · simp at h
  · rename_i hr
    simp only [Option.map_eq_some_iff, Prod.mk.injEq] at h
    obtain ⟨-, -, -, rfl⟩ := h
    exact NumberLiteral.length_read? hr

theorem length_next? {cs rest : List Char} {t : Token} (h : next? cs = some (t, rest)) :
    rest.length < cs.length := by
  unfold next? at h
  split at h
  case h_7 =>
    simp only [Option.map_eq_some_iff, Prod.mk.injEq, Prod.exists] at h
    obtain ⟨_, _, hr, -, rfl⟩ := h
    exact Nat.lt_trans (StringLiteral.length_read? hr) (Nat.lt_succ_self _)
  case h_11 => exact length_number? h
  all_goals
    simp only [Option.some.injEq, Prod.mk.injEq] at h
    rw [← h.2]
    simp only [List.length_cons]
    omega

/-- The tokens of a text. -/
def scan (cs : List Char) : List Token :=
  match cs with
  | [] => []
  | c :: rest =>
    if isBlank c then scan rest
    else
      match _h : next? (c :: rest) with
      | some (t, after) => t :: scan after
      | none => [bad]
termination_by cs.length
decreasing_by
  · exact Nat.lt_succ_self _
  · exact length_next? _h

end Token

end ReactorTrace.Json
