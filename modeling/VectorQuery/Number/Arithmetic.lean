/-!
# Operations on binary64 numbers

What the operators need beyond IEEE addition, subtraction, multiplication and
division: the remainder of a truncated quotient, the integer part, and the
larger and the smaller of two numbers of which either may be NaN.

A number is taken apart by `Float.Model.unpack` into a sign, a mantissa and a
binary exponent; what is computed on the parts is exact, and rounded once.
-/

namespace VectorQuery.Number

open Float.Model (UnpackedFloat)
open Float.Model.UnpackedFloat (Sign)

/-- Not a number. -/
def nan : Float := 0.0 / 0.0

/-- The number nearest to `± mantissa * 2 ^ exponent`. -/
def ofParts (sign : Sign) (mantissa : Nat) (exponent : Int) : Float :=
  .ofModel (.pack (.round .binary64 sign mantissa exponent))

/-- The integer part, towards zero; 0 for NaN and the infinities. -/
def truncate (x : Float) : Int :=
  match x.toModel.unpack with
  | .finite sign m e _ =>
      sign.apply (if 0 ≤ e then m <<< e.toNat else m >>> (-e).toNat)
  | _ => 0

/-- What is left of `x` once `y` is taken away from it as often as it fits,
towards zero.  The result is exact and has the sign of `x`. -/
def remainder (x y : Float) : Float :=
  match x.toModel.unpack, y.toModel.unpack with
  | .finite sign m e _, .finite _ n f _ =>
      let unit := min e f
      ofParts sign ((m <<< (e - unit).toNat) % (n <<< (f - unit).toNat)) unit
  | .finite .., .infinity _ => x
  | .zero _, .infinity _ => x
  | .zero _, .finite .. => x
  | _, _ => nan

/-- The larger of two numbers, or the one that is a number if the other is NaN.
Of two zeros it is the first. -/
def larger (x y : Float) : Float :=
  if x.isNaN then y else if x < y then y else x

/-- The smaller of two numbers, or the one that is a number if the other is
NaN.  Of two zeros it is the first. -/
def smaller (x y : Float) : Float :=
  if x.isNaN then y else if y < x then y else x

end VectorQuery.Number
