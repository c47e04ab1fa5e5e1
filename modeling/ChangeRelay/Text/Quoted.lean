import ChangeRelay.Text.Hex
import ChangeRelay.Text.Shown
/-!
# Quoted text

A text between double quotes, for messages: quotes, backslashes and the usual controls are
escaped, and a character that is not shown as it is stands as its code point.
-/

namespace ChangeRelay.Quoted

/-- One character inside the quotes. -/
def escape (c : Char) : List Char :=
  match c with
  | '"' => ['\\', '"']
  | '\\' => ['\\', '\\']
  | '\n' => ['\\', 'n']
  | '\r' => ['\\', 'r']
  | '\t' => ['\\', 't']
  | '\x00' => ['\\', '0']
  | c => if isShown c then [c] else "\\u\x7b".toList ++ Hex.ofNat c.toNat ++ ['\x7d']

/-- A text in quotes. -/
def encode (s : String) : String :=
  String.ofList ('"' :: s.toList.flatMap escape ++ ['"'])

end ChangeRelay.Quoted
