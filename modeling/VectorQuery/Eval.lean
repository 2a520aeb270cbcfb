import VectorQuery.Expr
import VectorQuery.Operator.Aggregation
import VectorQuery.Operator.Arithmetic
import VectorQuery.Operator.Comparison
import VectorQuery.Operator.Set
import VectorQuery.Scope

/-!
# Evaluation

An expression is evaluated from the leaves up, the left operand of an operator
before the right one, and the first error ends the evaluation.  The modifiers
around a vector are collected on the way to the operator that takes it; what an
operator returns has none.
-/

namespace VectorQuery

/-- The options of an evaluation. -/
structure EvalOptions where
  /-- Whether scalar arithmetic has to yield finite numbers. -/
  rejectNonFinite : Bool := true
deriving DecidableEq, Repr

namespace Expr

/-- The operand that an expression evaluates to. -/
def evalOperand (options : EvalOptions) (scope : Scope) : Expr → Except EvalError Operand
  | .number value => .ok (.scalar value)
  | .var name =>
      match scope[name]? with
      | some value => .ok (.ofValue value)
      | none => .error (.unknownVariable name)
  | .modifier m arg => do
      let operand ← arg.evalOperand options scope
      operand.modify m
  | .arithmetic op lhs rhs => do
      let lhs ← lhs.evalOperand options scope
      let rhs ← rhs.evalOperand options scope
      .ofValue <$> op.evaluate options.rejectNonFinite lhs rhs
  | .comparison op lhs rhs => do
      let lhs ← lhs.evalOperand options scope
      let rhs ← rhs.evalOperand options scope
      .ofValue <$> op.evaluate lhs rhs
  | .set op lhs rhs => do
      let lhs ← lhs.evalOperand options scope
      let rhs ← rhs.evalOperand options scope
      .ofValue <$> op.evaluate lhs rhs
  | .aggregation op arg => do
      let arg ← arg.evalOperand options scope
      .ofValue <$> op.evaluate arg
  | .absent arg => do
      let arg ← arg.evalOperand options scope
      .ofValue <$> arg.absent

/-- The value of an expression.  Modifiers around the whole of it have no
effect. -/
def eval (options : EvalOptions) (scope : Scope) (e : Expr) : Except EvalError Value :=
  Operand.toValue <$> e.evalOperand options scope

end Expr

end VectorQuery
