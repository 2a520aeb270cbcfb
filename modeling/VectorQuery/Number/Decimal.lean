import VectorQuery.Number.Arithmetic

/-!
# Decimals and the binary64 numbers they name

A decimal is a coefficient times a power of ten, and names the binary64 number
nearest to it.  `Decimal.shortest` goes back, to the decimal of fewest digits that
names the given number and, of those, to the one nearest to it.
-/

namespace VectorQuery

/-- The decimal `coefficient * 10 ^ exponent`. -/
structure Decimal where
  coefficient : Nat
  exponent : Int
deriving DecidableEq, Repr

namespace Decimal

/-- The binary64 number nearest to a decimal. -/
def toFloat (d : Decimal) : Float :=
  if 0 ≤ d.exponent then Float.ofScientific d.coefficient false d.exponent.toNat
  else Float.ofScientific d.coefficient true (-d.exponent).toNat

/-- The number of digits of `n`; 0 has none. -/
def digitCount (n : Nat) : Nat :=
  if n = 0 then 0 else (Nat.toDigits 10 n).length

/-- The position of the leading digit of `num / den`: the `k` for which
`10 ^ k ≤ num / den < 10 ^ (k + 1)`. -/
def leadingPosition (num den : Nat) : Int :=
  if den ≤ num then (digitCount (num / den) : Int) - 1
  else -(digitCount ((den - 1) / num) : Int)

/-- The two multiples of `10 ^ exponent` around `num / den`, the nearer first;
of two that are equally near, the one with an even coefficient. -/
def neighbours (num den : Nat) (exponent : Int) : List Decimal :=
  let n := num * Nat.pow 10 (-exponent).toNat
  let d := den * Nat.pow 10 exponent.toNat
  let below := n / d
  let above : Decimal := ⟨below + 1, exponent⟩
  let rest := 2 * (n % d)
  if rest < d ∨ rest = d ∧ below % 2 = 0 then [⟨below, exponent⟩, above]
  else [above, ⟨below, exponent⟩]

/-- The decimal written without zeros at the end of its coefficient. -/
def normalize (d : Decimal) : Decimal :=
  let zeros := ((Nat.toDigits 10 d.coefficient).reverse.takeWhile (· = '0')).length
  if d.coefficient = 0 then ⟨0, 0⟩
  else ⟨d.coefficient / Nat.pow 10 zeros, d.exponent + zeros⟩

/-- The decimal that is exactly `mantissa * 2 ^ exponent`. -/
def ofBinary (mantissa : Nat) (exponent : Int) : Decimal :=
  if 0 ≤ exponent then ⟨mantissa * Nat.pow 2 exponent.toNat, 0⟩
  else ⟨mantissa * Nat.pow 5 (-exponent).toNat, exponent⟩

/-- The decimal of fewest digits that names `± mantissa * 2 ^ exponent`, the
nearest one of those.  Seventeen digits are always enough. -/
def shortestOfBinary (mantissa : Nat) (exponent : Int) : Decimal :=
  let x := Number.ofParts .positive mantissa exponent
  let num := mantissa * Nat.pow 2 exponent.toNat
  let den := Nat.pow 2 (-exponent).toNat
  let k := leadingPosition num den
  let found := (List.range 17).findSome? fun (n : Nat) ↦
    (neighbours num den (k - (n : Int))).find? (·.toFloat = x)
  normalize (found.getD (ofBinary mantissa exponent))

/-- The shortest decimal that names the magnitude of a finite number. -/
def shortest (x : Float) : Decimal :=
  match x.toModel.unpack with
  | .finite _ m e _ => shortestOfBinary m e
  | _ => ⟨0, 0⟩

end Decimal

end VectorQuery
