import VectorQuery.Eval

/-!
# Errors of operators

An operator fails for the shape of its operands, for a modifier, for labels, or, if numbers
that are not finite are rejected, for such a number.  It never fails for a variable: that is
for the evaluation to find out before.
-/

namespace VectorQuery

/-- The errors that an operator may have. -/
inductive EvalError.OfOperator (rejectNonFinite : Bool) : EvalError → Prop where
  | duplicateLabelSet (duplicate : DuplicateLabels) :
      OfOperator rejectNonFinite (.duplicateLabelSet duplicate)
  | operandType (op : VectorOperator) : OfOperator rejectNonFinite (.operandType op)
  | nonFiniteResult (h : rejectNonFinite = true) (op : ArithmeticOp) (value : Float) :
      OfOperator rejectNonFinite (.nonFiniteResult op value)
  | unsupportedModifier (keyword : Keyword) :
      OfOperator rejectNonFinite (.unsupportedModifier keyword)

/-- If the outcome is an error, it is one that `p` holds of. -/
def FailsWith {α : Type} (p : EvalError → Prop) (x : Except EvalError α) : Prop :=
  ∀ error, x = .error error → p error

namespace FailsWith

variable {α β : Type} {p : EvalError → Prop} {x : Except EvalError α}

theorem ok (a : α) : FailsWith p (.ok a) := nofun

theorem error {e : EvalError} (h : p e) : FailsWith p (.error e : Except EvalError α) := by
  intro error herror
  obtain rfl := Except.error.inj herror
  exact h

theorem bind (hx : FailsWith p x) {f : α → Except EvalError β}
    (hf : ∀ a, FailsWith p (f a)) : FailsWith p (x >>= f) := by
  cases x with
  | ok a => exact hf a
  | error e => exact .error (hx e rfl)

theorem map (hx : FailsWith p x) (f : α → β) : FailsWith p (f <$> x) := by
  cases x with
  | ok a => exact ok (f a)
  | error e => exact .error (hx e rfl)

end FailsWith

variable {rejectNonFinite : Bool}

theorem Modifiers.ensureRead_failsWith (m : Modifiers) (read : List Keyword) :
    FailsWith (EvalError.OfOperator rejectNonFinite) (m.ensureRead read) := by
  rw [ensureRead]
  split
  · exact .error (.unsupportedModifier _)
  · exact .ok ()

theorem Operand.modify_failsWith (m : Modifier) (operand : Operand) :
    FailsWith (EvalError.OfOperator rejectNonFinite) (operand.modify m) := by
  cases operand with
  | scalar x => exact .error (.unsupportedModifier _)
  | vector v modifiers => exact .ok _

theorem InstantVector.joinOperands_failsWith (v w : InstantVector) (m n : Modifiers)
    (read : List Keyword) (combine : Combine) :
    FailsWith (EvalError.OfOperator rejectNonFinite) (v.joinOperands m w n read combine) := by
  refine (m.ensureRead_failsWith []).bind fun _ ↦ (n.ensureRead_failsWith read).bind fun _ ↦ ?_
  cases v.join w n.joinSpec combine with
  | error duplicate => exact .error (.duplicateLabelSet duplicate)
  | ok joined => exact .ok _

theorem ArithmeticOp.evaluate_failsWith (op : ArithmeticOp) (rejectNonFinite : Bool)
    (l r : Operand) :
    FailsWith (EvalError.OfOperator rejectNonFinite) (op.evaluate rejectNonFinite l r) := by
  cases l with
  | scalar x =>
      cases r with
      | scalar y =>
          simp only [evaluate]
          split
          · rename_i h
            exact .error (.nonFiniteResult (Bool.and_eq_true_iff.mp h).1 _ _)
          · exact .ok _
      | vector w n => exact (n.ensureRead_failsWith []).bind fun _ ↦ .ok _
  | vector v m =>
      cases r with
      | scalar y => exact (m.ensureRead_failsWith []).bind fun _ ↦ .ok _
      | vector w n => exact v.joinOperands_failsWith w m n _ _

theorem ComparisonOp.evaluate_failsWith (op : ComparisonOp) (l r : Operand) :
    FailsWith (EvalError.OfOperator rejectNonFinite) (op.evaluate l r) := by
  cases l with
  | scalar x =>
      cases r with
      | scalar y => exact .ok _
      | vector w n => exact (n.ensureRead_failsWith _).bind fun _ ↦ .ok _
  | vector v m =>
      cases r with
      | scalar y => exact (m.ensureRead_failsWith _).bind fun _ ↦ .ok _
      | vector w n => exact v.joinOperands_failsWith w m n _ _

theorem SetOp.evaluate_failsWith (op : SetOp) (l r : Operand) :
    FailsWith (EvalError.OfOperator rejectNonFinite) (op.evaluate l r) := by
  cases l with
  | scalar x => exact .error (.operandType _)
  | vector v m =>
      cases r with
      | scalar y => exact .error (.operandType _)
      | vector w n =>
          exact (m.ensureRead_failsWith []).bind fun _ ↦
            (n.ensureRead_failsWith []).bind fun _ ↦ .ok _

theorem AggregationOp.evaluate_failsWith (op : AggregationOp) (arg : Operand) :
    FailsWith (EvalError.OfOperator rejectNonFinite) (op.evaluate arg) := by
  cases arg with
  | scalar x => exact .error (.operandType _)
  | vector v m => exact (m.ensureRead_failsWith _).bind fun _ ↦ .ok _

theorem Operand.absent_failsWith (arg : Operand) :
    FailsWith (EvalError.OfOperator rejectNonFinite) arg.absent := by
  cases arg with
  | scalar x => exact .error (.operandType _)
  | vector v m => exact (m.ensureRead_failsWith []).bind fun _ ↦ .ok _

end VectorQuery
