import ReactorTrace.Text.Hexadecimal
import ReactorTrace.Text.Invisible

/-! Text between double quotes, with escapes for the quote, the backslash and every character that
would not be seen as itself. -/

namespace ReactorTrace.Text.Quoted

def escape : Char → List Char
  | '\x00' => ['\\', '0']
  | '\t' => ['\\', 't']
  | '\n' => ['\\', 'n']
  | '\r' => ['\\', 'r']
  | '\\' => ['\\', '\\']
  | '"' => ['\\', '"']
  | c =>
    if Invisible.isInvisible c then
      ['\\', 'u', '\x7b'] ++ Hexadecimal.digits c.toNat ++ ['\x7d']
    else [c]

def encode (text : String) : String :=
  String.ofList ('"' :: text.toList.flatMap escape ++ ['"'])

end ReactorTrace.Text.Quoted
