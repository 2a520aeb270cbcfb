import VectorQuery.Aggregate
import VectorQuery.Operator.Operand

/-!
# Aggregation and absence

The reductions of a list of numbers, the aggregation operators made from them,
and the operator that tells whether a vector is empty.
-/

namespace VectorQuery

namespace AggregationOp

/-- The sum from left to right.  That of no numbers is `-0.0`, to which any
number can be added without a change. -/
def total (values : List Float) : Float := values.foldl (· + ·) (-0.0)

/-- The numbers combined two by two from left to right; NaN if there are none. -/
def reduceWith (f : Float → Float → Float) : List Float → Float
  | [] => Number.nan
  | x :: values => values.foldl f x

/-- The reduction of a list of numbers. -/
def reduce : AggregationOp → List Float → Float
  | .avg, values => total values / Float.ofNat values.length
  | .sum, values => total values
  | .max, values => reduceWith Number.larger values
  | .min, values => reduceWith Number.smaller values
  | .count, values => Float.ofNat values.length

/-- The aggregation of an operand, which has to be a vector. -/
def evaluate (op : AggregationOp) : Operand → Except EvalError Value
  | .vector v m => do
      m.ensureRead Keyword.grouping
      return v.aggregate m.grouping op.reduce
  | .scalar _ => .error (.operandType (.aggregation op))

end AggregationOp

namespace InstantVector

/-- One sample without labels if the vector is empty, and none if it is not. -/
def absent (v : InstantVector) : InstantVector :=
  if v.isEmpty then ⟨v.time, [⟨∅, 1.0⟩]⟩ else .empty v.time

end InstantVector

/-- Whether an operand, which has to be a vector, is empty. -/
def Operand.absent : Operand → Except EvalError Value
  | .vector v m => do
      m.ensureRead []
      return .vector v.absent
  | .scalar _ => .error (.operandType .absent)

end VectorQuery
