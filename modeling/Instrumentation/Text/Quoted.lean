import Instrumentation.Text.Printable

/-!
# Quoted texts

A text as it stands in a listing: between double quotes, with a backslash before
the quote and the backslash, short escapes for line feed, carriage return, tab
and the null character, and the code point in hexadecimal for every other
character that would not show.
-/

namespace Instrumentation.Text

/-- The escape by code point: `\u` and the hexadecimal digits in braces. -/
def codePointEscape (c : Char) : List Char :=
  '\\' :: 'u' :: '\x7b' :: (Nat.toDigits 16 c.toNat ++ ['\x7d'])

def quotedChar (c : Char) : List Char :=
  match c with
  | '"' => ['\\', '"']
  | '\\' => ['\\', '\\']
  | '\n' => ['\\', 'n']
  | '\r' => ['\\', 'r']
  | '\t' => ['\\', 't']
  | '\x00' => ['\\', '0']
  | c => if isPrintable c then [c] else codePointEscape c

def quoted (s : String) : String :=
  String.ofList ('"' :: s.toList.flatMap quotedChar ++ ['"'])

end Instrumentation.Text
