import VectorQuery.Error
import VectorQuery.Value

/-!
# Operands

A value on its way into an operator.  A vector brings along the modifiers that
the expression has attached to it, and an operator accepts only those it reads.
-/

namespace VectorQuery

inductive Operand where
  | scalar (x : Float)
  | vector (v : InstantVector) (modifiers : Modifiers)
deriving DecidableEq

namespace Operand

/-- A value as an operand without modifiers. -/
def ofValue : Value → Operand
  | .scalar x => .scalar x
  | .vector v => .vector v {}

/-- The operand as a value; what modifiers it has is lost. -/
def toValue : Operand → Value
  | .scalar x => .scalar x
  | .vector v _ => .vector v

@[simp] theorem toValue_ofValue (v : Value) : (ofValue v).toValue = v := by
  cases v <;> rfl

/-- The operand with one more modifier, which only a vector takes. -/
def modify (m : Modifier) : Operand → Except EvalError Operand
  | .scalar _ => .error (.unsupportedModifier m.keyword)
  | .vector v modifiers => .ok (.vector v (modifiers.apply m))

end Operand

namespace Modifiers

/-- Fails on the first modifier in effect whose keyword is not among those that
an operator reads. -/
def ensureRead (m : Modifiers) (read : List Keyword) : Except EvalError Unit :=
  match m.keywords.find? (!read.contains ·) with
  | some keyword => .error (.unsupportedModifier keyword)
  | none => .ok ()

end Modifiers

namespace Keyword

/-- The keywords that say how two vectors are matched. -/
def matching : List Keyword := [.on, .ignoring, .groupLeft, .groupRight]

/-- The keywords that say how a vector is grouped. -/
def grouping : List Keyword := [.byLabels, .withoutLabels]

end Keyword

/-- The join of two operands.  Modifiers are read from the right one only, and
only those of the keywords given. -/
def InstantVector.joinOperands (left : InstantVector) (leftModifiers : Modifiers)
    (right : InstantVector) (rightModifiers : Modifiers) (read : List Keyword)
    (combine : Combine) : Except EvalError Value := do
  leftModifiers.ensureRead []
  rightModifiers.ensureRead read
  match left.join right rightModifiers.joinSpec combine with
  | .error duplicate => .error (.duplicateLabelSet duplicate)
  | .ok joined => .ok (.vector joined)

end VectorQuery
