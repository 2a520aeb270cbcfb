import VectorQuery.Modifiers
import VectorQuery.Operator.Basic

/-!
# Expression trees

An expression is built from numbers and variables by operators and modifiers.
A modifier is a node around the operand that it is meant for.
-/

namespace VectorQuery

inductive Expr where
  | number (value : Float)
  | var (name : String)
  | arithmetic (op : ArithmeticOp) (lhs rhs : Expr)
  | comparison (op : ComparisonOp) (lhs rhs : Expr)
  | set (op : SetOp) (lhs rhs : Expr)
  | aggregation (op : AggregationOp) (arg : Expr)
  | absent (arg : Expr)
  | modifier (m : Modifier) (arg : Expr)
deriving DecidableEq

namespace Expr

/-- The names of the variables, from left to right. -/
def varNames : Expr → List String
  | .number _ => []
  | .var name => [name]
  | .arithmetic _ lhs rhs => lhs.varNames ++ rhs.varNames
  | .comparison _ lhs rhs => lhs.varNames ++ rhs.varNames
  | .set _ lhs rhs => lhs.varNames ++ rhs.varNames
  | .aggregation _ arg => arg.varNames
  | .absent arg => arg.varNames
  | .modifier _ arg => arg.varNames

/-! ## Short names for nodes -/

def add (lhs rhs : Expr) : Expr := .arithmetic .add lhs rhs

def subtract (lhs rhs : Expr) : Expr := .arithmetic .subtract lhs rhs

def multiply (lhs rhs : Expr) : Expr := .arithmetic .multiply lhs rhs

def divide (lhs rhs : Expr) : Expr := .arithmetic .divide lhs rhs

def avg (arg : Expr) : Expr := .aggregation .avg arg

def sum (arg : Expr) : Expr := .aggregation .sum arg

def max (arg : Expr) : Expr := .aggregation .max arg

def min (arg : Expr) : Expr := .aggregation .min arg

def on (labels : List String) (arg : Expr) : Expr := .modifier (.on labels) arg

def ignoring (labels : List String) (arg : Expr) : Expr :=
  .modifier (.ignoring labels) arg

def byLabels (labels : List String) (arg : Expr) : Expr :=
  .modifier (.byLabels labels) arg

def withoutLabels (labels : List String) (arg : Expr) : Expr :=
  .modifier (.withoutLabels labels) arg

def groupLeft (labels : List String) (arg : Expr) : Expr :=
  .modifier (.groupLeft labels) arg

def groupRight (labels : List String) (arg : Expr) : Expr :=
  .modifier (.groupRight labels) arg

def returnBool (arg : Expr) : Expr := .modifier .returnBool arg

end Expr

end VectorQuery
