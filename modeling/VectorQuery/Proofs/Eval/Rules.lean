import VectorQuery.Proofs.Operator.Rules

/-!
# Rules of evaluation

The operands that expressions evaluate to, as derivations with one rule for each
kind of node.  A derivation exists exactly if the evaluation succeeds.  It has
a sub-derivation for every node of the tree, so that what holds of every
successful evaluation is shown by induction on derivations.
-/

namespace VectorQuery.Expr

variable (options : EvalOptions) (scope : Scope)

inductive Yields : Expr → Operand → Prop where
  | number (value : Float) : Yields (.number value) (.scalar value)
  | var {name : String} {value : Value} (h : scope[name]? = some value) :
      Yields (.var name) (.ofValue value)
  | modifier {m : Modifier} {arg : Expr} {v : InstantVector} {modifiers : Modifiers}
      (harg : Yields arg (.vector v modifiers)) :
      Yields (.modifier m arg) (.vector v (modifiers.apply m))
  | arithmetic {op : ArithmeticOp} {lhs rhs : Expr} {l r : Operand} {value : Value}
      (hlhs : Yields lhs l) (hrhs : Yields rhs r)
      (h : op.Yields options.rejectNonFinite l r value) :
      Yields (.arithmetic op lhs rhs) (.ofValue value)
  | comparison {op : ComparisonOp} {lhs rhs : Expr} {l r : Operand} {value : Value}
      (hlhs : Yields lhs l) (hrhs : Yields rhs r) (h : op.Yields l r value) :
      Yields (.comparison op lhs rhs) (.ofValue value)
  | set {op : SetOp} {lhs rhs : Expr} {l r : Operand} {value : Value}
      (hlhs : Yields lhs l) (hrhs : Yields rhs r) (h : op.Yields l r value) :
      Yields (.set op lhs rhs) (.ofValue value)
  | aggregation {op : AggregationOp} {arg : Expr} {a : Operand} {value : Value}
      (harg : Yields arg a) (h : op.Yields a value) :
      Yields (.aggregation op arg) (.ofValue value)
  | absent {arg : Expr} {a : Operand} {value : Value}
      (harg : Yields arg a) (h : a.YieldsAbsent value) :
      Yields (.absent arg) (.ofValue value)

variable {options scope}

/-! ## Operands of operators -/

/-- An operator on one operand evaluates that operand first. -/
theorem unary_eq_ok {x : Except EvalError Operand} {op : Operand → Except EvalError Value}
    {operand : Operand} :
    (do let a ← x; Operand.ofValue <$> op a) = .ok operand ↔
      ∃ a value, x = .ok a ∧ op a = .ok value ∧ Operand.ofValue value = operand := by
  simp only [bind_eq_ok, map_eq_ok, exists_and_left]

/-- An operator on two operands evaluates both first. -/
theorem binary_eq_ok {x y : Except EvalError Operand}
    {op : Operand → Operand → Except EvalError Value} {operand : Operand} :
    (do let l ← x; let r ← y; Operand.ofValue <$> op l r) = .ok operand ↔
      ∃ l r value, x = .ok l ∧ y = .ok r ∧ op l r = .ok value ∧
        Operand.ofValue value = operand := by
  simp only [bind_eq_ok, map_eq_ok, exists_and_left]

/-! ## Derivations and evaluations -/

/-- What an evaluation returns has a derivation. -/
theorem yields_of_evalOperand {e : Expr} {operand : Operand}
    (h : e.evalOperand options scope = .ok operand) : Yields options scope e operand := by
  induction e generalizing operand with
  | number value =>
      cases h
      exact .number value
  | var name =>
      rw [evalOperand] at h
      cases hname : scope[name]? with
      | none => simp [hname] at h
      | some value =>
          rw [hname] at h
          cases h
          exact .var hname
  | modifier m arg ih =>
      obtain ⟨a, ha, h⟩ := bind_eq_ok.mp h
      cases a with
      | scalar x => cases h
      | vector v modifiers =>
          cases h
          exact .modifier (ih ha)
  | arithmetic op lhs rhs ihl ihr =>
      obtain ⟨l, r, value, hl, hr, hvalue, rfl⟩ := binary_eq_ok.mp h
      exact .arithmetic (ihl hl) (ihr hr) (ArithmeticOp.evaluate_eq_ok_iff.mp hvalue)
  | comparison op lhs rhs ihl ihr =>
      obtain ⟨l, r, value, hl, hr, hvalue, rfl⟩ := binary_eq_ok.mp h
      exact .comparison (ihl hl) (ihr hr) (ComparisonOp.evaluate_eq_ok_iff.mp hvalue)
  | set op lhs rhs ihl ihr =>
      obtain ⟨l, r, value, hl, hr, hvalue, rfl⟩ := binary_eq_ok.mp h
      exact .set (ihl hl) (ihr hr) (SetOp.evaluate_eq_ok_iff.mp hvalue)
  | aggregation op arg ih =>
      obtain ⟨a, value, ha, hvalue, rfl⟩ := unary_eq_ok.mp h
      exact .aggregation (ih ha) (AggregationOp.evaluate_eq_ok_iff.mp hvalue)
  | absent arg ih =>
      obtain ⟨a, value, ha, hvalue, rfl⟩ := unary_eq_ok.mp h
      exact .absent (ih ha) (Operand.absent_eq_ok_iff.mp hvalue)

/-- What has a derivation is returned. -/
theorem Yields.evalOperand_eq {e : Expr} {operand : Operand}
    (h : Yields options scope e operand) : e.evalOperand options scope = .ok operand := by
  induction h with
  | number value => rfl
  | var h => simp [evalOperand, h]
  | modifier _ ih => exact bind_eq_ok.mpr ⟨_, ih, rfl⟩
  | arithmetic _ _ h ihl ihr =>
      exact binary_eq_ok.mpr ⟨_, _, _, ihl, ihr, ArithmeticOp.evaluate_eq_ok_iff.mpr h, rfl⟩
  | comparison _ _ h ihl ihr =>
      exact binary_eq_ok.mpr ⟨_, _, _, ihl, ihr, ComparisonOp.evaluate_eq_ok_iff.mpr h, rfl⟩
  | set _ _ h ihl ihr =>
      exact binary_eq_ok.mpr ⟨_, _, _, ihl, ihr, SetOp.evaluate_eq_ok_iff.mpr h, rfl⟩
  | aggregation _ h ih =>
      exact unary_eq_ok.mpr ⟨_, _, ih, AggregationOp.evaluate_eq_ok_iff.mpr h, rfl⟩
  | absent _ h ih =>
      exact unary_eq_ok.mpr ⟨_, _, ih, Operand.absent_eq_ok_iff.mpr h, rfl⟩

theorem evalOperand_eq_ok_iff {e : Expr} {operand : Operand} :
    e.evalOperand options scope = .ok operand ↔ Yields options scope e operand :=
  ⟨yields_of_evalOperand, Yields.evalOperand_eq⟩

theorem eval_eq_ok_iff {e : Expr} {value : Value} :
    e.eval options scope = .ok value ↔
      ∃ operand, Yields options scope e operand ∧ operand.toValue = value := by
  simp only [eval, map_eq_ok, evalOperand_eq_ok_iff]

end VectorQuery.Expr
