/-!
# The operators

The operators of the expression language and the names they have in messages.
-/

namespace VectorQuery

inductive ArithmeticOp where
  | add
  | subtract
  | multiply
  | divide
  | modulo
  | power
deriving DecidableEq, Repr

inductive ComparisonOp where
  | smaller
  | smallerEq
  | larger
  | largerEq
  | equal
  | unequal
deriving DecidableEq, Repr

inductive SetOp where
  | and
  | or
  | unless
deriving DecidableEq, Repr

inductive AggregationOp where
  | avg
  | sum
  | max
  | min
  | count
deriving DecidableEq, Repr

def ArithmeticOp.name : ArithmeticOp → String
  | .add => "add"
  | .subtract => "subtract"
  | .multiply => "multiply"
  | .divide => "divide"
  | .modulo => "mod"
  | .power => "pow"

def ComparisonOp.name : ComparisonOp → String
  | .smaller => "smaller"
  | .smallerEq => "smallerEq"
  | .larger => "larger"
  | .largerEq => "largerEq"
  | .equal => "equal"
  | .unequal => "unequal"

def SetOp.name : SetOp → String
  | .and => "and"
  | .or => "or"
  | .unless => "unless"

def AggregationOp.name : AggregationOp → String
  | .avg => "avg"
  | .sum => "sum"
  | .max => "max"
  | .min => "min"
  | .count => "count"

end VectorQuery
