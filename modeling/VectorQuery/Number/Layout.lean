import VectorQuery.Number.Decimal

/-!
# How numbers are written

A layout says which decimals are written in positional notation and which with
an exponent.  `Layout.json` is the layout of the numbers in JSON text.
-/

namespace VectorQuery.Number

/-- Positional notation is used where the leading digit stands at a position
`k` with `positionalFrom ≤ k < positionalBelow`. -/
structure Layout where
  positionalFrom : Int
  positionalBelow : Int

/-- Numbers from `0.00001` up to `10 ^ 16` are written in positional notation,
always with a point; the others with an exponent that shows its sign. -/
def Layout.json : Layout := ⟨-5, 16⟩

/-- A decimal in positional notation, with a digit on both sides of the point. -/
def positional (digits : List Char) (exponent : Int) : List Char :=
  if 0 ≤ exponent then digits ++ List.replicate exponent.toNat '0' ++ ['.', '0']
  else
    let whole := digits.length - (-exponent).toNat
    if whole = 0 then
      '0' :: '.' :: List.replicate ((-exponent).toNat - digits.length) '0' ++ digits
    else digits.take whole ++ '.' :: digits.drop whole

/-- A decimal with one digit before the point and the position `k` of that
digit behind an `e`. -/
def scientific (digits : List Char) (k : Int) : List Char :=
  let fraction := digits.drop 1
  let sign := if k < 0 then '-' else '+'
  digits.take 1 ++ (if fraction.isEmpty then [] else '.' :: fraction) ++
    'e' :: sign :: Nat.toDigits 10 k.natAbs

/-- A decimal in the notation that the layout has for it. -/
def Layout.decimal (layout : Layout) (d : Decimal) : List Char :=
  let digits := Nat.toDigits 10 d.coefficient
  let k := digits.length - 1 + d.exponent
  if layout.positionalFrom ≤ k ∧ k < layout.positionalBelow then
    positional digits d.exponent
  else scientific digits k

/-- Whether a number is written with a minus sign: `-0.0` is, NaN is not. -/
def isNegative (x : Float) : Bool :=
  match x.toModel.unpack with
  | .infinity sign => sign == .negative
  | .notANumber => false
  | .zero sign => sign == .negative
  | .finite sign .. => sign == .negative

/-- A finite number in the fewest digits that name it. -/
def Layout.number (layout : Layout) (x : Float) : List Char :=
  let digits := layout.decimal (Decimal.shortest x)
  if isNegative x then '-' :: digits else digits

end VectorQuery.Number
