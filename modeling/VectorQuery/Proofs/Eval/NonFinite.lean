import VectorQuery.Proofs.Eval.Chains
import VectorQuery.Proofs.Operator.Errors

/-!
# Rejecting numbers that are not finite

With the option to reject them, an evaluation ends at the first pair of scalars whose
result is NaN or an infinity.  Up to there it takes the same steps as an evaluation
without the option; so it has the same value and the same errors, or it has failed for
a number that some arithmetic node of the expression yields.
-/

namespace VectorQuery

/-! ## Outcomes with and without the option -/

/-- The outcome is not the error for a number that is not finite. -/
def Tolerant {α : Type} (x : Except EvalError α) : Prop :=
  ∀ op z, x ≠ .error (.nonFiniteResult op z)

namespace Tolerant

variable {α β : Type}

theorem ok (a : α) : Tolerant (.ok a) := nofun

theorem bind {x : Except EvalError α} (hx : Tolerant x) {f : α → Except EvalError β}
    (hf : ∀ a, Tolerant (f a)) : Tolerant (x >>= f) := by
  cases x with
  | ok a => exact hf a
  | error error => exact fun op z h ↦ hx op z (congrArg Except.error (Except.error.inj h))

theorem map {x : Except EvalError α} (hx : Tolerant x) (f : α → β) : Tolerant (f <$> x) := by
  cases x with
  | ok a => exact ok (f a)
  | error error => exact fun op z h ↦ hx op z (congrArg Except.error (Except.error.inj h))

end Tolerant

/-- Without the option, no operator has that error. -/
theorem FailsWith.tolerant {α : Type} {x : Except EvalError α}
    (h : FailsWith (EvalError.OfOperator false) x) : Tolerant x := by
  intro op z hx
  cases h _ hx with
  | nonFiniteResult hfalse => cases hfalse

/-- Two outcomes that are the same, unless the first one is the error for a number that
is not finite, as `Rejected` says that there may be. -/
inductive Rejecting {α : Type} (Rejected : ArithmeticOp → Float → Prop) :
    Except EvalError α → Except EvalError α → Prop where
  | same (x : Except EvalError α) : Rejecting Rejected x x
  | rejected {op : ArithmeticOp} {z : Float} (h : Rejected op z) (y : Except EvalError α) :
      Rejecting Rejected (.error (.nonFiniteResult op z)) y

namespace Rejecting

variable {α β : Type} {Rejected : ArithmeticOp → Float → Prop} {x y : Except EvalError α}

/-- The steps that follow have to be compared only after the first ones have succeeded
alike. -/
theorem bind (h : Rejecting Rejected x y) {f g : α → Except EvalError β}
    (hfg : ∀ a, x = .ok a → Rejecting Rejected (f a) (g a)) :
    Rejecting Rejected (x >>= f) (y >>= g) := by
  cases h with
  | rejected h y => exact .rejected h _
  | same x =>
      cases x with
      | ok a => exact hfg a rfl
      | error error => exact .same _

theorem map (h : Rejecting Rejected x y) (f : α → β) :
    Rejecting Rejected (f <$> x) (f <$> y) := by
  cases h with
  | rejected h y => exact .rejected h _
  | same x => exact .same _

theorem eq_ok {a : α} (h : Rejecting Rejected (.ok a) y) : y = .ok a := by
  cases h
  rfl

theorem eq_error {error : EvalError} (h : Rejecting Rejected (.error error) y)
    (herror : ∀ op z, error ≠ .nonFiniteResult op z) : y = .error error := by
  cases h with
  | same => rfl
  | rejected => exact absurd rfl (herror _ _)

/-- Against an outcome that is not the error, the error is one for a rejected number. -/
theorem of_tolerant {op : ArithmeticOp} {z : Float}
    (h : Rejecting Rejected (.error (.nonFiniteResult op z)) y) (hy : Tolerant y) :
    Rejected op z := by
  cases h with
  | same => exact absurd rfl (hy op z)
  | rejected h => exact h

end Rejecting

/-! ## Arithmetic -/

/-- The option matters to two scalars only, and only if their result is not finite. -/
theorem ArithmeticOp.evaluate_rejecting (op : ArithmeticOp) (l r : Operand)
    {Rejected : ArithmeticOp → Float → Prop}
    (h : ∀ x y, l = .scalar x → r = .scalar y → (op.apply x y).isFinite = false →
      Rejected op (op.apply x y)) :
    Rejecting Rejected (op.evaluate true l r) (op.evaluate false l r) := by
  cases l with
  | vector v m => cases r <;> exact .same _
  | scalar x =>
      cases r with
      | vector w n => exact .same _
      | scalar y =>
          simp only [evaluate, Bool.true_and, Bool.false_and, Bool.not_eq_true']
          split
          · rename_i hfinite
            exact .rejected (h x y rfl rfl hfinite) _
          · exact .same _

/-! ## Expressions -/

namespace Expr

/-- The options under which numbers that are not finite are errors. -/
def rejecting : EvalOptions := ⟨true⟩

/-- The options under which they are not. -/
def tolerating : EvalOptions := ⟨false⟩

/-- The operands of an arithmetic node of `e` are two scalars, the result of which is not
finite. -/
structure HasNonFinite (scope : Scope) (e : Expr) (op : ArithmeticOp) (z : Float) : Prop where
  not_finite : z.isFinite = false
  exists_node : ∃ site lhs rhs x y, Occurs e site (.arithmetic op lhs rhs) ∧
    lhs.eval rejecting scope = .ok (.scalar x) ∧
    rhs.eval rejecting scope = .ok (.scalar y) ∧ z = op.apply x y

variable {scope : Scope} {e d : Expr} {site : Site}

theorem eval_eq_scalar {options : EvalOptions} {x : Float}
    (h : e.evalOperand options scope = .ok (.scalar x)) :
    e.eval options scope = .ok (.scalar x) := by
  rw [eval, h]
  rfl

theorem evalOperand_tolerant (scope : Scope) (e : Expr) :
    Tolerant (e.evalOperand tolerating scope) := by
  induction e with
  | number value => exact .ok _
  | var name =>
      rw [evalOperand]
      cases scope[name]? with
      | none =>
          intro op z h
          cases h
      | some value => exact .ok _
  | modifier m arg ih => exact ih.bind fun a ↦ (a.modify_failsWith m).tolerant
  | arithmetic op lhs rhs ihl ihr =>
      exact ihl.bind fun l ↦ ihr.bind fun r ↦ (op.evaluate_failsWith false l r).tolerant.map _
  | comparison op lhs rhs ihl ihr =>
      exact ihl.bind fun l ↦ ihr.bind fun r ↦ (op.evaluate_failsWith l r).tolerant.map _
  | set op lhs rhs ihl ihr =>
      exact ihl.bind fun l ↦ ihr.bind fun r ↦ (op.evaluate_failsWith l r).tolerant.map _
  | aggregation op arg ih => exact ih.bind fun a ↦ (op.evaluate_failsWith a).tolerant.map _
  | absent arg ih => exact ih.bind fun a ↦ a.absent_failsWith.tolerant.map _

/-- By induction on a sub-expression of `e`: both evaluations take the same steps, until
the first of them has rejected a number. -/
theorem Occurs.evalOperand_rejecting (hd : Occurs e site d) :
    Rejecting (HasNonFinite scope e) (d.evalOperand rejecting scope)
      (d.evalOperand tolerating scope) := by
  induction d generalizing site with
  | number value => exact .same _
  | var name => exact .same _
  | modifier m arg ih => exact (ih (.modifier hd)).bind fun _ _ ↦ .same _
  | arithmetic op lhs rhs ihl ihr =>
      refine (ihl (.arithmeticLeft hd)).bind fun l hl ↦
        (ihr (.arithmeticRight hd)).bind fun r hr ↦ ?_
      refine (op.evaluate_rejecting l r ?_).map _
      rintro x y rfl rfl hfinite
      exact ⟨hfinite, _, _, _, x, y, hd, eval_eq_scalar hl, eval_eq_scalar hr, rfl⟩
  | comparison op lhs rhs ihl ihr =>
      exact (ihl (.comparisonLeft hd)).bind fun _ _ ↦
        (ihr (.comparisonRight hd)).bind fun _ _ ↦ .same _
  | set op lhs rhs ihl ihr =>
      exact (ihl (.setLeft hd)).bind fun _ _ ↦ (ihr (.setRight hd)).bind fun _ _ ↦ .same _
  | aggregation op arg ih => exact (ih (.aggregation hd)).bind fun _ _ ↦ .same _
  | absent arg ih => exact (ih (.absent hd)).bind fun _ _ ↦ .same _

/-- The option to reject numbers that are not finite only turns successes into the error
for such a number.  Without it there is no such error; with it, the error is for the
result of an arithmetic node on two scalars. -/
theorem eval_rejecting_and_tolerating (scope : Scope) (e : Expr) :
    (∀ value, e.eval rejecting scope = .ok value → e.eval tolerating scope = .ok value) ∧
    (∀ error, e.eval rejecting scope = .error error →
      (∀ op z, error ≠ .nonFiniteResult op z) → e.eval tolerating scope = .error error) ∧
    (∀ op z, e.eval tolerating scope ≠ .error (.nonFiniteResult op z)) ∧
    ∀ op z, e.eval rejecting scope = .error (.nonFiniteResult op z) →
      z.isFinite = false ∧
      ∃ site lhs rhs x y, Occurs e site (.arithmetic op lhs rhs) ∧
        lhs.eval rejecting scope = .ok (.scalar x) ∧
        rhs.eval rejecting scope = .ok (.scalar y) ∧ z = op.apply x y := by
  have hrejecting : Rejecting (HasNonFinite scope e) (e.eval rejecting scope)
      (e.eval tolerating scope) :=
    Occurs.root.evalOperand_rejecting.map _
  have htolerant : Tolerant (e.eval tolerating scope) := (evalOperand_tolerant scope e).map _
  refine ⟨fun value h ↦ ?_, fun error h herror ↦ ?_, htolerant, fun op z h ↦ ?_⟩
  · exact (h ▸ hrejecting).eq_ok
  · exact (h ▸ hrejecting).eq_error herror
  · obtain ⟨hfinite, hnode⟩ := (h ▸ hrejecting).of_tolerant htolerant
    exact ⟨hfinite, hnode⟩

/-- The hosts times a quotient by zero. -/
def scaledHosts : Expr := .multiply (.var "hosts") (.divide (.number 1) (.number 0))

/-- The quotient is rejected, and without the option all hosts have an infinite number. -/
theorem eval_scaledHosts :
    scaledHosts.eval rejecting hostScope = .error (.nonFiniteResult .divide (1 / 0)) ∧
    (1 / 0 : Float).isFinite = false ∧
    (∃ site lhs rhs x y, Occurs scaledHosts site (.arithmetic .divide lhs rhs) ∧
      lhs.eval rejecting hostScope = .ok (.scalar x) ∧
      rhs.eval rejecting hostScope = .ok (.scalar y) ∧ 1 / 0 = ArithmeticOp.divide.apply x y) ∧
    scaledHosts.eval tolerating hostScope = .ok (.vector (.ofRows (.ofUnixSeconds 5)
      [([("host", "h1"), ("dc", "oslo")], 1 / 0),
        ([("host", "h2"), ("dc", "bergen")], 1 / 0)])) := by
  have h : scaledHosts.eval rejecting hostScope = .error (.nonFiniteResult .divide (1 / 0)) := by
    decide +kernel
  obtain ⟨hfinite, hnode⟩ := (eval_rejecting_and_tolerating hostScope scaledHosts).2.2.2 _ _ h
  exact ⟨h, hfinite, hnode, by decide +kernel⟩

end Expr

end VectorQuery
