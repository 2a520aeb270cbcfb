import VectorQuery.Number.Literal

/-!
# The tokens of JSON text

The text is cut into punctuation, strings, numbers and the three literal names;
blanks are space, tab, line feed and carriage return.  The form of each is read
strictly: numbers have no superfluous zeros, and strings hold no raw control
characters.  A number that is out of range and a string with half of a surrogate
pair have the form, but not the content; they become tokens that cannot be read.
-/

namespace VectorQuery.Json

inductive Token where
  | openArray
  | closeArray
  | openObject
  | closeObject
  | comma
  | colon
  | null
  | bool (b : Bool)
  | integer (n : Int)
  | number (x : Float)
  | unreadableNumber
  | string (s : String)
  | unreadableString
deriving DecidableEq

/-! ## Numbers -/

namespace NumberText

open Number (Literal digitsValue)

/-- The digits at the start of a text, and the text behind them. -/
def digits (cs : List Char) : List Char × List Char :=
  (cs.takeWhile (·.isDigit), cs.dropWhile (·.isDigit))

/-- The digits before the point: one zero, or digits that start with another
one. -/
def whole? (cs : List Char) : Option (List Char × List Char) :=
  match digits cs with
  | ([], _) => none
  | (['0'], rest) => some (['0'], rest)
  | ('0' :: _, _) => none
  | parts => some parts

/-- The digits behind the point, if there is a point. -/
def fraction? (cs : List Char) : Option (Option (List Char) × List Char) :=
  match cs with
  | '.' :: cs =>
      match digits cs with
      | ([], _) => none
      | (ds, rest) => some (some ds, rest)
  | _ => some (none, cs)

/-- The digits of an exponent, with which the text has to come to an end. -/
def exponentDigits? (cs : List Char) : Option Nat :=
  match digits cs with
  | ([], _) => none
  | (ds, []) => some (digitsValue ds)
  | _ => none

/-- The exponent, if there is one, with which the text has to come to an end. -/
def exponent? (cs : List Char) : Option (Option Int) :=
  match cs with
  | [] => some none
  | e :: cs =>
      if e = 'e' ∨ e = 'E' then
        match cs with
        | '-' :: cs => (exponentDigits? cs).map fun n ↦ some (-(n : Int))
        | '+' :: cs => (exponentDigits? cs).map fun n ↦ some (n : Int)
        | _ => (exponentDigits? cs).map fun n ↦ some (n : Int)
      else none

/-- The literal that a text without a sign is. -/
def unsigned? (negative : Bool) (cs : List Char) : Option Literal := do
  let (whole, cs) ← whole? cs
  let (fraction, cs) ← fraction? cs
  return ⟨negative, whole, fraction, ← exponent? cs⟩

/-- The literal that a text is. -/
def literal? (cs : List Char) : Option Literal :=
  match cs with
  | '-' :: cs => unsigned? true cs
  | _ => unsigned? false cs

/-- The token of a literal. -/
def token (l : Literal) : Token :=
  match l.integer? with
  | some n => .integer n
  | none =>
      match l.float? with
      | some x => .number x
      | none => .unreadableNumber

end NumberText

/-! ## Strings -/

namespace StringText

/-- The character that a letter behind a backslash stands for. -/
def escape? : Char → Option Char
  | '"' => some '"'
  | '\\' => some '\\'
  | '/' => some '/'
  | 'b' => some '\x08'
  | 'f' => some '\x0c'
  | 'n' => some '\n'
  | 'r' => some '\r'
  | 't' => some '\t'
  | _ => none

/-- The value of a hexadecimal digit. -/
def hexDigit? (c : Char) : Option Nat :=
  if '0' ≤ c ∧ c ≤ '9' then some (c.toNat - '0'.toNat)
  else if 'a' ≤ c ∧ c ≤ 'f' then some (c.toNat - 'a'.toNat + 10)
  else if 'A' ≤ c ∧ c ≤ 'F' then some (c.toNat - 'A'.toNat + 10)
  else none

/-- The code unit that four hexadecimal digits stand for. -/
def codeUnit? (a b c d : Char) : Option Nat := do
  return ((((← hexDigit? a) * 16 + (← hexDigit? b)) * 16 + (← hexDigit? c)) * 16 +
    (← hexDigit? d))

def isHighSurrogate (unit : Nat) : Bool := 0xd800 ≤ unit && unit < 0xdc00

def isLowSurrogate (unit : Nat) : Bool := 0xdc00 ≤ unit && unit < 0xe000

/-- The character that two halves of a surrogate pair stand for. -/
def ofPair (high low : Nat) : Char :=
  Char.ofNat (0x10000 + (high - 0xd800) * 0x400 + (low - 0xdc00))

/-- What has been scanned, with one more element in front. -/
def before (a : α) (scanned : Option (List α × List Char)) :
    Option (List α × List Char) :=
  scanned.map fun (as, rest) ↦ (a :: as, rest)

theorem before_eq_some {a : α} {scanned : Option (List α × List Char)} {s : List α}
    {rest : List Char} :
    before a scanned = some (s, rest) ↔ ∃ as, scanned = some (as, rest) ∧ s = a :: as := by
  cases scanned with
  | none => simp [before]
  | some p =>
      obtain ⟨as, rest'⟩ := p
      simp only [before, Option.map_some, Option.some.injEq, Prod.mk.injEq]
      exact
        ⟨fun ⟨h, h'⟩ ↦ ⟨as, ⟨rfl, h'⟩, h.symm⟩,
         fun ⟨_, ⟨h, h'⟩, h''⟩ ↦ ⟨h ▸ h''.symm, h'⟩⟩

/-- A part of a string: a character, or the code unit of an escape. -/
inductive Piece where
  | char (c : Char)
  | unit (n : Nat)
deriving DecidableEq, Repr

/-- The pieces of a string up to its closing quotation mark, and the text behind
that. -/
def scan : List Char → Option (List Piece × List Char)
  | '"' :: rest => some ([], rest)
  | '\\' :: 'u' :: a :: b :: c :: d :: rest =>
      match codeUnit? a b c d with
      | none => none
      | some unit => before (.unit unit) (scan rest)
  | '\\' :: e :: rest =>
      match escape? e with
      | none => none
      | some c => before (.char c) (scan rest)
  | c :: rest =>
      if c.toNat < 0x20 then none
      else before (.char c) (scan rest)
  | [] => none

/-- The text behind a string is shorter than the text it starts in. -/
theorem length_of_scan {cs : List Char} {s : List Piece} {rest : List Char}
    (h : scan cs = some (s, rest)) : rest.length < cs.length := by
  fun_induction scan cs generalizing s rest <;> simp_all [before_eq_some] <;> grind

/-- The characters that pieces make up.  Two code units that are the halves of a
surrogate pair are one character; half a pair is none. -/
def characters? : List Piece → Option (List Char)
  | [] => some []
  | .char c :: pieces => (characters? pieces).map (c :: ·)
  | .unit high :: .unit low :: pieces =>
      if isHighSurrogate high then
        if isLowSurrogate low then (characters? pieces).map (ofPair high low :: ·)
        else none
      else if isLowSurrogate high then none
      else (characters? (.unit low :: pieces)).map (Char.ofNat high :: ·)
  | .unit unit :: pieces =>
      if isHighSurrogate unit || isLowSurrogate unit then none
      else (characters? pieces).map (Char.ofNat unit :: ·)

/-- The token of the pieces of a string. -/
def token (pieces : List Piece) : Token :=
  match characters? pieces with
  | some cs => .string (String.ofList cs)
  | none => .unreadableString

end StringText

/-! ## Cutting a text into tokens -/

namespace Token

def isBlank (c : Char) : Bool :=
  c == ' ' || c == '\t' || c == '\n' || c == '\r'

/-- The token that a single character is. -/
def ofChar? : Char → Option Token
  | '[' => some .openArray
  | ']' => some .closeArray
  | '{' => some .openObject
  | '}' => some .closeObject
  | ',' => some .comma
  | ':' => some .colon
  | _ => none

/-- The characters of which numbers and literal names are made. -/
def isWordChar (c : Char) : Bool :=
  c.isAlphanum || c == '+' || c == '-' || c == '.'

/-- The number or the literal name that a word is. -/
def ofWord? (word : List Char) : Option Token :=
  match word with
  | ['n', 'u', 'l', 'l'] => some .null
  | ['t', 'r', 'u', 'e'] => some (.bool true)
  | ['f', 'a', 'l', 's', 'e'] => some (.bool false)
  | _ => (NumberText.literal? word).map NumberText.token

/-- The tokens of a text. -/
def lex? : List Char → Option (List Token)
  | [] => some []
  | c :: cs =>
      if isBlank c then lex? cs
      else
        match ofChar? c with
        | some token => (lex? cs).map (token :: ·)
        | none =>
            if c = '"' then
              match _h : StringText.scan cs with
              | none => none
              | some (pieces, rest) => (lex? rest).map (StringText.token pieces :: ·)
            else if isWordChar c then
              match ofWord? (c :: cs.takeWhile isWordChar) with
              | none => none
              | some token => (lex? (cs.dropWhile isWordChar)).map (token :: ·)
            else none
termination_by cs => cs.length
decreasing_by
  · simp
  · simp
  · have := StringText.length_of_scan _h
    simp only [List.length_cons]
    omega
  · have := (List.dropWhile_suffix (l := cs) isWordChar).length_le
    simp only [List.length_cons]
    omega

end Token

end VectorQuery.Json
