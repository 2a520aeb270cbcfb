import VectorQuery.Operator.Operand

/-!
# Comparison

Two scalars compare to 1 or 0.  On vectors a comparison is a filter: what does
not compare is dropped, and what does keeps its number; with `bool`, everything
is kept with 1 or 0 for a number.
-/

namespace VectorQuery.ComparisonOp

/-- The comparison of numbers; with NaN only `unequal` holds. -/
def compare : ComparisonOp → Float → Float → Bool
  | .smaller, x, y => x < y
  | .smallerEq, x, y => x ≤ y
  | .larger, x, y => y < x
  | .largerEq, x, y => y ≤ x
  | .equal, x, y => x == y
  | .unequal, x, y => x != y

/-- 1 for what holds and 0 for what does not. -/
def indicator (holds : Bool) : Float := if holds then 1.0 else 0.0

/-- The number of a sample after a comparison that holds or not. -/
def verdict (returnBool holds : Bool) (value : Float) : Option Float :=
  if returnBool then some (indicator holds)
  else if holds then some value
  else none

/-- The comparison of operands. -/
def evaluate (op : ComparisonOp) : Operand → Operand → Except EvalError Value
  | .scalar x, .scalar y => .ok (.scalar (indicator (op.compare x y)))
  | .vector v m, .vector w n =>
      v.joinOperands m w n (Keyword.matching ++ [.returnBool]) fun x y ↦
        if op.compare x y then some x else none
  | .vector v m, .scalar y => do
      m.ensureRead [.returnBool]
      return .vector (v.filterMapValues fun x ↦ verdict m.returnBool (op.compare x y) x)
  | .scalar x, .vector w n => do
      n.ensureRead [.returnBool]
      return .vector (w.filterMapValues fun y ↦ verdict n.returnBool (op.compare x y) y)

end VectorQuery.ComparisonOp
