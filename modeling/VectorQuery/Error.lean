import VectorQuery.Join
import VectorQuery.Operator.Basic

/-!
# Evaluation errors

The ways in which an evaluation can fail, and the messages that report them.
-/

namespace VectorQuery

/-- The operators that take vectors only. -/
inductive VectorOperator where
  | set (op : SetOp)
  | aggregation (op : AggregationOp)
  | absent
deriving DecidableEq, Repr

namespace VectorOperator

def name : VectorOperator → String
  | .set op => op.name
  | .aggregation op => op.name
  | .absent => "absent"

/-- What the operator has to be applied to. -/
def operands : VectorOperator → String
  | .set _ => "two vectors"
  | _ => "a vector"

end VectorOperator

inductive EvalError where
  /-- Labels that should identify a sample in a join belong to two. -/
  | duplicateLabelSet (duplicate : DuplicateLabels)
  /-- A scalar where only vectors are accepted. -/
  | operandType (op : VectorOperator)
  /-- An operation on scalars yields NaN or an infinity. -/
  | nonFiniteResult (op : ArithmeticOp) (value : Float)
  /-- A modifier where no operator reads it, or on a scalar. -/
  | unsupportedModifier (keyword : Keyword)
  /-- A name without a value in the scope. -/
  | unknownVariable (name : String)
deriving DecidableEq

namespace EvalError

/-- NaN or an infinity as shown in messages. -/
def nonFiniteText (x : Float) : String :=
  if x.isNaN then "NaN" else if x < 0.0 then "-inf" else "inf"

def message : EvalError → String
  | .duplicateLabelSet ⟨labels, side⟩ =>
      "Duplicate label set " ++ labels.toText ++ " on the " ++ side.name ++
        " side of vector matching: the matching labels must identify a single sample"
  | .operandType op =>
      "Operator " ++ op.name ++ " can only be applied to " ++ op.operands
  | .nonFiniteResult op value =>
      "Operator " ++ op.name ++ " produced a non-finite result: " ++ nonFiniteText value
  | .unsupportedModifier keyword =>
      "Modifier " ++ keyword.text ++ " can only be applied to an instant vector"
  | .unknownVariable name => "Unknown variable: " ++ name

end EvalError

end VectorQuery
