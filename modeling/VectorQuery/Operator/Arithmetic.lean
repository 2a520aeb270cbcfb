import VectorQuery.Operator.Operand

/-!
# Arithmetic

Two scalars are combined to a scalar, and two vectors are joined as the
modifiers of the right one say.  A scalar is combined with each sample of a
vector, which keeps its labels.
-/

namespace VectorQuery.ArithmeticOp

/-- The operation on numbers. -/
def apply : ArithmeticOp → Float → Float → Float
  | .add, x, y => x + y
  | .subtract, x, y => x - y
  | .multiply, x, y => x * y
  | .divide, x, y => x / y
  | .modulo, x, y => Number.remainder x y
  | .power, x, y => Float.pow x y

/-- The operation on operands.  With `rejectNonFinite`, the result of two
scalars has to be finite. -/
def evaluate (op : ArithmeticOp) (rejectNonFinite : Bool) :
    Operand → Operand → Except EvalError Value
  | .scalar x, .scalar y =>
      let value := op.apply x y
      if rejectNonFinite && !value.isFinite then .error (.nonFiniteResult op value)
      else .ok (.scalar value)
  | .vector v m, .vector w n =>
      v.joinOperands m w n Keyword.matching fun x y ↦ some (op.apply x y)
  | .vector v m, .scalar y => do
      m.ensureRead []
      return .vector (v.mapValues (op.apply · y))
  | .scalar x, .vector w n => do
      n.ensureRead []
      return .vector (w.mapValues (op.apply x ·))

end VectorQuery.ArithmeticOp
