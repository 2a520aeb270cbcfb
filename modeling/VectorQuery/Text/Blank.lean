/-!
# Blank characters

The characters with the Unicode property `White_Space`, and text without them
at its ends.
-/

namespace VectorQuery.Text

/-- The code points of the blank characters, as ranges in increasing order with
both ends included. -/
def blankRanges : List (Nat × Nat) :=
  [(0x9, 0xd), (0x20, 0x20), (0x85, 0x85), (0xa0, 0xa0), (0x1680, 0x1680),
   (0x2000, 0x200a), (0x2028, 0x2029), (0x202f, 0x202f), (0x205f, 0x205f),
   (0x3000, 0x3000)]

/-- Whether a character is blank. -/
def isBlank (c : Char) : Bool :=
  blankRanges.any fun (first, last) ↦ first ≤ c.toNat && c.toNat ≤ last

/-- The text without the blank characters at its ends. -/
def trim (s : String) : String :=
  String.ofList ((s.toList.dropWhile isBlank).reverse.dropWhile isBlank).reverse

end VectorQuery.Text
