import VectorQuery.Number.Decimal

/-!
# Number literals

What a literal stands for, given its digits.  A literal of digits alone is a
whole number as long as it fits into 64 bits.  Any other one is read in steps,
each of which rounds: as many digits as fit into 64 bits make up a coefficient,
which is rounded to binary64 and then multiplied or divided by a power of ten.
For most literals, though not for all, this is the nearest number.
-/

namespace VectorQuery

namespace Number

/-- The number nearest to a power of ten. -/
def powerOfTen (n : Nat) : Float := (Decimal.mk 1 n).toFloat

/-- The exponent of the largest power of ten that is finite. -/
def maxPowerOfTen : Nat := 308

/-- A number divided by a power of ten, in several steps if the power is not
finite. -/
def divideByPowerOfTen (x : Float) (n : Nat) : Float :=
  if n ≤ maxPowerOfTen then x / powerOfTen n
  else if x == 0.0 then x
  else divideByPowerOfTen (x / powerOfTen maxPowerOfTen) (n - maxPowerOfTen)
termination_by n
decreasing_by
  rename_i h _
  simp only [maxPowerOfTen] at h ⊢
  omega

/-- A number multiplied by a power of ten, if the result is finite. -/
def multiplyByPowerOfTen? (x : Float) (n : Nat) : Option Float :=
  if n ≤ maxPowerOfTen then
    let y := x * powerOfTen n
    if y.isFinite then some y else none
  else if x == 0.0 then some x
  else none

end Number

/-- The number that a decimal is read as, if it is within the range: the
coefficient is rounded first, and the power of ten applied to that. -/
def Decimal.read? (d : Decimal) : Option Float :=
  let x := Float.ofNat d.coefficient
  if 0 ≤ d.exponent then Number.multiplyByPowerOfTen? x d.exponent.toNat
  else some (Number.divideByPowerOfTen x (-d.exponent).toNat)

namespace Number

/-- The number that a digit stands for. -/
def digitValue (d : Char) : Nat := d.toNat - '0'.toNat

/-- The number that a list of digits stands for. -/
def digitsValue (ds : List Char) : Nat := ds.foldl (fun n d ↦ 10 * n + digitValue d) 0

/-- A coefficient with further digits, as long as it fits into 64 bits, and the
digits that are left. -/
def takeDigits (n : Nat) : List Char → Nat × List Char
  | [] => (n, [])
  | d :: ds =>
      if 10 * n + digitValue d < UInt64.size then takeDigits (10 * n + digitValue d) ds
      else (n, d :: ds)

/-- A literal by its parts: the digits before and behind the point, and the
exponent. -/
structure Literal where
  negative : Bool
  whole : List Char
  fraction : Option (List Char)
  exponent : Option Int
deriving DecidableEq, Repr

namespace Literal

/-- The whole number that a literal is, if it is written as digits only and fits
into 64 bits, of which a negative one spends one on the sign.  The sign of a
zero is not lost: it makes the literal one of binary64. -/
def integer? (l : Literal) : Option Int :=
  match l.fraction, l.exponent, takeDigits 0 l.whole with
  | none, none, (n, []) =>
      if !l.negative then some n
      else if 0 < n ∧ n ≤ Nat.pow 2 63 then some (-n)
      else none
  | _, _, _ => none

/-- The decimal of the digits that are taken into account.  Those that do not
fit count as zeros before the point, and are dropped behind it. -/
def decimal (l : Literal) : Decimal :=
  let (n, omitted) := takeDigits 0 l.whole
  let fraction := l.fraction.getD []
  let (n, dropped) := takeDigits n fraction
  let taken := fraction.length - dropped.length
  ⟨n, l.exponent.getD 0 + omitted.length - taken⟩

/-- The binary64 number that a literal is read as, if it is within the range. -/
def float? (l : Literal) : Option Float :=
  (l.decimal.read?).map fun x ↦ if l.negative then -x else x

end Literal

end Number

end VectorQuery
