import Nodecast.Text.Hidden

/-!
# Quoted text

Text between double quotes, in which every character shows. A character that does not is written
as a short escape or by its number.
-/

namespace Nodecast.Text

def escapeHidden (c : Char) : List Char :=
  match c with
  | '"' => ['\\', '"']
  | '\\' => ['\\', '\\']
  | '\n' => ['\\', 'n']
  | '\r' => ['\\', 'r']
  | '\t' => ['\\', 't']
  | '\x00' => ['\\', '0']
  | c => if isHidden c then "\\u\x7b".toList ++ Nat.toDigits 16 c.toNat ++ ['\x7d'] else [c]

def quote (s : String) : String :=
  String.ofList ('"' :: (s.toList.flatMap escapeHidden ++ ['"']))

end Nodecast.Text
