import VectorQuery.Json.Token

/-!
# Settings files

A settings file has a setting on each line, as `key = value`, or nothing but a
comment behind a `#`.  A key is a name, or several with points between them;
names are bare or between quotation marks.  Values are the two booleans, integers
of 128 bits, and strings: between double quotation marks with escapes, or between
single ones as they are, and with three marks on either side also over several
lines.  No key may be set twice, nor be part of one that is set.
-/

namespace VectorQuery

/-- The value of a setting in a file. -/
inductive SettingValue where
  | bool (b : Bool)
  | integer (n : Int)
  | string (s : String)
deriving DecidableEq, Repr

/-- A setting in a file. -/
structure Setting where
  key : List String
  value : SettingValue
deriving DecidableEq, Repr

namespace SettingsFile

open Json.StringText (before before_eq_some)

/-! ## Blanks, comments and the ends of lines -/

def isBlank (c : Char) : Bool := c == ' ' || c == '\t'

/-- The rest of a line behind the blanks at its start. -/
def skipBlanks (cs : List Char) : List Char := cs.dropWhile isBlank

/-- The characters that no comment and no string may hold. -/
def isControl (c : Char) : Bool := (c.toNat < 0x20 && c != '\t') || c.toNat == 0x7f

/-- The text behind the end of a line, if there is nothing before that. -/
def newline? : List Char → Option (List Char)
  | [] => some []
  | '\n' :: rest => some rest
  | '\r' :: '\n' :: rest => some rest
  | _ => none

/-- The text behind a line of which only a comment is left. -/
def comment? : List Char → Option (List Char)
  | [] => some []
  | '\n' :: rest => some rest
  | '\r' :: '\n' :: rest => some rest
  | c :: rest => if isControl c then none else comment? rest

/-- The text behind a line of which only blanks and a comment are left. -/
def endOfLine? (cs : List Char) : Option (List Char) :=
  match skipBlanks cs with
  | '#' :: cs => comment? cs
  | cs => newline? cs

/-! ## Strings -/

/-- The character that a letter behind a backslash stands for. -/
def escape? : Char → Option Char
  | 'b' => some '\x08'
  | 't' => some '\t'
  | 'n' => some '\n'
  | 'f' => some '\x0c'
  | 'r' => some '\r'
  | 'e' => some '\x1b'
  | '"' => some '"'
  | '\\' => some '\\'
  | _ => none

/-- The character with the code point that hexadecimal digits stand for. -/
def codePoint? (digits : List Char) : Option Char := do
  let n ← digits.foldlM (fun n d ↦ (16 * n + ·) <$> Json.StringText.hexDigit? d) 0
  if n.isValidChar then some (Char.ofNat n) else none

/-- The character of an escape, given the text behind the backslash, and the
text behind the escape. -/
def escaped? : List Char → Option (Char × List Char)
  | 'x' :: a :: b :: rest => (codePoint? [a, b]).map (·, rest)
  | 'u' :: a :: b :: c :: d :: rest => (codePoint? [a, b, c, d]).map (·, rest)
  | 'U' :: a :: b :: c :: d :: e :: f :: g :: h :: rest =>
      (codePoint? [a, b, c, d, e, f, g, h]).map (·, rest)
  | e :: rest => (escape? e).map (·, rest)
  | [] => none

theorem length_of_escaped {cs rest : List Char} {c : Char}
    (h : escaped? cs = some (c, rest)) : rest.length < cs.length := by
  unfold escaped? at h
  split at h <;>
    simp only [Option.map_eq_some_iff, Prod.mk.injEq, reduceCtorEq] at h <;>
    obtain ⟨_, _, _, rfl⟩ := h <;>
    simp only [List.length_cons] <;>
    omega

/-- A string up to the closing double quotation mark, and the text behind it. -/
def scanQuoted (cs : List Char) : Option (List Char × List Char) :=
  match cs with
  | '"' :: rest => some ([], rest)
  | '\\' :: rest =>
      match _h : escaped? rest with
      | some (c, rest) => before c (scanQuoted rest)
      | none => none
  | c :: rest => if isControl c then none else before c (scanQuoted rest)
  | [] => none
termination_by cs.length
decreasing_by
  · have := length_of_escaped _h
    simp only [List.length_cons]
    omega
  · simp

/-- A string up to the closing single quotation mark, and the text behind it. -/
def scanLiteral : List Char → Option (List Char × List Char)
  | '\'' :: rest => some ([], rest)
  | c :: rest => if isControl c then none else before c (scanLiteral rest)
  | [] => none

/-- A string between quotation marks, and the text behind it. -/
def scanString? : List Char → Option (List Char × List Char)
  | '"' :: rest => scanQuoted rest
  | '\'' :: rest => scanLiteral rest
  | _ => none

/-! ## Strings over several lines -/

/-- The quotation marks behind three of them that still belong to the string, up
to two, and the text behind these. -/
def closing (mark : Char) : List Char → List Char × List Char
  | a :: b :: rest =>
      if a = mark then if b = mark then ([a, b], rest) else ([a], b :: rest)
      else ([], a :: b :: rest)
  | [a] => if a = mark then ([a], []) else ([], [a])
  | [] => ([], [])

/-- The text behind blanks and ends of lines. -/
def skipGap : List Char → List Char
  | ' ' :: rest => skipGap rest
  | '\t' :: rest => skipGap rest
  | '\n' :: rest => skipGap rest
  | '\r' :: '\n' :: rest => skipGap rest
  | cs => cs

theorem length_skipGap_le (cs : List Char) : (skipGap cs).length ≤ cs.length := by
  fun_induction skipGap cs
  case case5 => exact Nat.le_refl _
  all_goals
    simp only [List.length_cons]
    omega

theorem length_skipBlanks_le (cs : List Char) : (skipBlanks cs).length ≤ cs.length :=
  (List.dropWhile_suffix isBlank).length_le

/-- The text behind the gap that a backslash at the end of a line opens. -/
def gap? (cs : List Char) : Option (List Char) :=
  match skipBlanks cs with
  | '\n' :: rest => some (skipGap rest)
  | '\r' :: '\n' :: rest => some (skipGap rest)
  | _ => none

theorem length_of_gap {cs rest : List Char} (h : gap? cs = some rest) :
    rest.length ≤ cs.length := by
  have hb := length_skipBlanks_le cs
  unfold gap? at h
  split at h
  next text heq =>
    obtain rfl := Option.some.inj h
    have := length_skipGap_le text
    rw [heq, List.length_cons] at hb
    omega
  next text heq =>
    obtain rfl := Option.some.inj h
    have := length_skipGap_le text
    rw [heq, List.length_cons, List.length_cons] at hb
    omega
  · cases h

/-- A string up to the three closing double quotation marks, and the text behind
them. -/
def scanQuotedBlock (cs : List Char) : Option (List Char × List Char) :=
  match cs with
  | '"' :: '"' :: '"' :: rest => some (closing '"' rest)
  | '\\' :: rest =>
      match _h : gap? rest with
      | some rest => scanQuotedBlock rest
      | none =>
          match _h : escaped? rest with
          | some (c, rest) => before c (scanQuotedBlock rest)
          | none => none
  | '\n' :: rest => before '\n' (scanQuotedBlock rest)
  | '\r' :: '\n' :: rest => before '\r' (before '\n' (scanQuotedBlock rest))
  | c :: rest => if isControl c then none else before c (scanQuotedBlock rest)
  | [] => none
termination_by cs.length
decreasing_by
  · have := length_of_gap _h
    simp only [List.length_cons]
    omega
  · have := length_of_escaped _h
    simp only [List.length_cons]
    omega
  all_goals
    simp only [List.length_cons]
    omega

/-- A string up to the three closing single quotation marks, and the text behind
them. -/
def scanLiteralBlock : List Char → Option (List Char × List Char)
  | '\'' :: '\'' :: '\'' :: rest => some (closing '\'' rest)
  | '\n' :: rest => before '\n' (scanLiteralBlock rest)
  | '\r' :: '\n' :: rest => before '\r' (before '\n' (scanLiteralBlock rest))
  | c :: rest => if isControl c then none else before c (scanLiteralBlock rest)
  | [] => none

/-- The text of a string over several lines, of which an empty first line does
not count. -/
def skipNewline (cs : List Char) : List Char :=
  match cs with
  | '\n' :: rest => rest
  | '\r' :: '\n' :: rest => rest
  | _ => cs

/-- A string of either kind, and the text behind it. -/
def scanValue? : List Char → Option (List Char × List Char)
  | '"' :: '"' :: '"' :: rest => scanQuotedBlock (skipNewline rest)
  | '\'' :: '\'' :: '\'' :: rest => scanLiteralBlock (skipNewline rest)
  | cs => scanString? cs

/-! ## Integers -/

/-- The digits of an integer, which may have single underscores between them. -/
def digits? : List Char → Option (List Char)
  | [] => none
  | [d] => if d == '_' then none else some [d]
  | d :: '_' :: cs => if d == '_' then none else (digits? cs).map (d :: ·)
  | d :: cs => if d == '_' then none else (digits? cs).map (d :: ·)

/-- The number that digits stand for to a base of up to sixteen. -/
def natural? (base : Nat) (cs : List Char) : Option Nat := do
  (← digits? cs).foldlM
    (fun n d ↦ do
      let digit ← Json.StringText.hexDigit? d
      if digit < base then some (base * n + digit) else none)
    0

/-- The natural number that a text to base ten is, without superfluous zeros. -/
def decimal? (cs : List Char) : Option Nat :=
  match cs with
  | '0' :: _ :: _ => none
  | _ => natural? 10 cs

/-- The integer that a text is, whatever its size. -/
def unbounded? (cs : List Char) : Option Int :=
  match cs with
  | '0' :: 'x' :: cs => Int.ofNat <$> natural? 16 cs
  | '0' :: 'o' :: cs => Int.ofNat <$> natural? 8 cs
  | '0' :: 'b' :: cs => Int.ofNat <$> natural? 2 cs
  | '-' :: cs => (fun n : Nat ↦ -(n : Int)) <$> decimal? cs
  | '+' :: cs => Int.ofNat <$> decimal? cs
  | _ => Int.ofNat <$> decimal? cs

/-- The integer of 128 bits, with or without a sign, that a text is. -/
def integer? (cs : List Char) : Option Int := do
  let n ← unbounded? cs
  if -Int.pow 2 127 ≤ n ∧ n < Int.pow 2 128 then some n else none

/-! ## Settings -/

def isKeyChar (c : Char) : Bool := c.isAlphanum || c == '_' || c == '-'

/-- A name of a key, and the text behind it. -/
def name? (cs : List Char) : Option (String × List Char) :=
  match scanString? cs with
  | some (name, rest) => some (String.ofList name, rest)
  | none =>
      let name := cs.takeWhile isKeyChar
      if name.isEmpty then none else some (String.ofList name, cs.dropWhile isKeyChar)

/-- A key, and the text behind it. -/
def key? (cs : List Char) : Option (List String × List Char) :=
  match name? cs with
  | none => none
  | some (name, rest) =>
      match skipBlanks rest with
      | '.' :: rest =>
          if (skipBlanks rest).length < cs.length then
            (key? (skipBlanks rest)).map fun (names, rest) ↦ (name :: names, rest)
          else none
      | _ => some ([name], rest)
termination_by cs.length

/-- The boolean or the integer that a word is. -/
def word? (word : List Char) : Option SettingValue :=
  match word with
  | ['t', 'r', 'u', 'e'] => some (.bool true)
  | ['f', 'a', 'l', 's', 'e'] => some (.bool false)
  | _ => .integer <$> integer? word

/-- The value at the start of a text, and the text behind it. -/
def value? (cs : List Char) : Option (SettingValue × List Char) :=
  match scanValue? cs with
  | some (s, rest) => some (.string (String.ofList s), rest)
  | none => do
      let isWordChar := fun c ↦ isKeyChar c || c == '+'
      return (← word? (cs.takeWhile isWordChar), cs.dropWhile isWordChar)

/-- What the first line of a text sets, if it sets anything, and the text behind
it. -/
def line? (cs : List Char) : Option (Option Setting × List Char) :=
  match endOfLine? cs with
  | some rest => some (none, rest)
  | none => do
      let (key, cs) ← key? (skipBlanks cs)
      match skipBlanks cs with
      | '=' :: cs =>
          let (value, cs) ← value? (skipBlanks cs)
          return (some ⟨key, value⟩, ← endOfLine? cs)
      | _ => none

/-- The settings of a text. -/
def settings? (cs : List Char) : Option (List Setting) :=
  if cs.isEmpty then some []
  else
    match line? cs with
    | none => none
    | some (setting, rest) =>
        if rest.length < cs.length then (setting.toList ++ ·) <$> settings? rest
        else none
termination_by cs.length

/-- Whether neither of two settings is for a part of what the other one sets. -/
def independent (a b : Setting) : Bool :=
  !a.key.isPrefixOf b.key && !b.key.isPrefixOf a.key

/-- The text without the byte order mark at its start. -/
def skipMark (cs : List Char) : List Char :=
  match cs with
  | '\ufeff' :: cs => cs
  | _ => cs

/-- The settings of a file, if all of its lines are well-formed and no two of
them are for the same key. -/
def read? (text : String) : Option (List Setting) := do
  let settings ← settings? (skipMark text.toList)
  if settings.Pairwise (fun a b ↦ independent a b = true) then some settings else none

end SettingsFile

end VectorQuery
