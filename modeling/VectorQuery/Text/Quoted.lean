import VectorQuery.Text.Unprintable

/-!
# Quoted text

Text between quotation marks, in which every character that could be misread
is replaced by an escape.  The escapes are `\0 \t \r \n \" \\`, and `\u` with
the code point in braces for the characters without a shape of their own.
-/

namespace VectorQuery.Text.Quoted

/-- The code point of a character, in hexadecimal between braces. -/
def codePoint (c : Char) : List Char :=
  '\\' :: 'u' :: '{' :: Nat.toDigits 16 c.toNat ++ ['}']

/-- How a character is written between the quotation marks. -/
def encodeChar (c : Char) : List Char :=
  match c with
  | '\x00' => ['\\', '0']
  | '\t' => ['\\', 't']
  | '\r' => ['\\', 'r']
  | '\n' => ['\\', 'n']
  | '"' => ['\\', '"']
  | '\\' => ['\\', '\\']
  | c => if isUnprintable c then codePoint c else [c]

/-- The text between quotation marks. -/
def encode (s : String) : String :=
  String.ofList ('"' :: s.toList.flatMap encodeChar ++ ['"'])

end VectorQuery.Text.Quoted
