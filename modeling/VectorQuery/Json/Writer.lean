import VectorQuery.Json.Basic
import VectorQuery.Number.Layout

/-!
# Writing JSON text

A value is written in one of two styles: on a single line without blanks, or
with each item and each field on a line of its own.
-/

namespace VectorQuery.Json

/-- How the parts of a value are set out. -/
inductive Style where
  | compact
  | pretty
deriving DecidableEq, Repr

namespace Style

/-- What stands before an item or a closing bracket at a depth. -/
def lineBreak (style : Style) (depth : Nat) : List Char :=
  match style with
  | .compact => []
  | .pretty => '\n' :: List.replicate (2 * depth) ' '

/-- What stands between the name and the value of a field. -/
def colon (style : Style) : List Char :=
  match style with
  | .compact => [':']
  | .pretty => [':', ' ']

end Style

/-- The four digits of a code point below 256 in an escape. -/
def controlDigits (n : Nat) : List Char :=
  ['0', '0', Nat.digitChar (n / 16), Nat.digitChar (n % 16)]

/-- How a character is written within a string.  Only the quotation mark, the
backslash and the control characters below the space are escaped. -/
def escapeChar (c : Char) : List Char :=
  match c with
  | '"' => ['\\', '"']
  | '\\' => ['\\', '\\']
  | '\x08' => ['\\', 'b']
  | '\x0c' => ['\\', 'f']
  | '\n' => ['\\', 'n']
  | '\r' => ['\\', 'r']
  | '\t' => ['\\', 't']
  | c => if c.toNat < 0x20 then '\\' :: 'u' :: controlDigits c.toNat else [c]

/-- The digits of an integer, behind a minus sign if it is negative. -/
def integerDigits (n : Int) : List Char :=
  let digits := Nat.toDigits 10 n.natAbs
  if n < 0 then '-' :: digits else digits

/-- A string between quotation marks. -/
def quote (s : String) : List Char :=
  '"' :: s.toList.flatMap escapeChar ++ ['"']

mutual

/-- The text of a value that starts at a depth; what is not a value is written
as `null`. -/
def write (style : Style) (depth : Nat) : Json → List Char
  | .null => ['n', 'u', 'l', 'l']
  | .bool true => ['t', 'r', 'u', 'e']
  | .bool false => ['f', 'a', 'l', 's', 'e']
  | .integer n => integerDigits n
  | .number x => Number.Layout.json.number x
  | .string s => quote s
  | .array [] => ['[', ']']
  | .array (item :: items) =>
      '[' :: style.lineBreak (depth + 1) ++ write style (depth + 1) item ++
        writeItems style (depth + 1) items ++ style.lineBreak depth ++ [']']
  | .object [] => ['{', '}']
  | .object ((name, value) :: fields) =>
      '{' :: style.lineBreak (depth + 1) ++ quote name ++ style.colon ++
        write style (depth + 1) value ++
        writeFields style (depth + 1) fields ++ style.lineBreak depth ++ ['}']
  | .unreadable => ['n', 'u', 'l', 'l']

/-- The text of the items after the first one. -/
def writeItems (style : Style) (depth : Nat) : List Json → List Char
  | [] => []
  | item :: items =>
      ',' :: style.lineBreak depth ++ write style depth item ++
        writeItems style depth items

/-- The text of the fields after the first one. -/
def writeFields (style : Style) (depth : Nat) : List (String × Json) → List Char
  | [] => []
  | (name, value) :: fields =>
      ',' :: style.lineBreak depth ++ quote name ++ style.colon ++
        write style depth value ++ writeFields style depth fields

end

/-- The text of a value. -/
def render (style : Style) (j : Json) : String := String.ofList (j.write style 0)

end VectorQuery.Json
