import Stencil.Text.Printable

/-!
# Quoted text

How messages show a text that may hold anything: between double quotes, with a backslash escape for the quote, the backslash,
the tab, the two line ends and the null character, and the code point in hexadecimal for every other character that cannot be
shown as it is.
-/

namespace Stencil.Text

def quotedChar (c : Char) : List Char :=
  match c with
  | '"' => ['\\', '"']
  | '\\' => ['\\', '\\']
  | '\t' => ['\\', 't']
  | '\r' => ['\\', 'r']
  | '\n' => ['\\', 'n']
  | '\x00' => ['\\', '0']
  | c => if isShown c then [c] else ['\\', 'u', '\x7b'] ++ Nat.toDigits 16 c.toNat ++ ['\x7d']

def quoted (s : String) : String := String.ofList ('"' :: s.toList.flatMap quotedChar ++ ['"'])

end Stencil.Text
