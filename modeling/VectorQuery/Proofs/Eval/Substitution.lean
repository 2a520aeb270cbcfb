import VectorQuery.Proofs.Eval.Distinct

/-!
# Naming a sub-expression

A sub-expression can be given a name: it makes no difference whether it stands in
an expression, or a variable that is bound to its value.  So nothing passes from
one part of an expression to another but the values of operands.  Modifiers are
what an operand has beside its value, and they are collected anew around a
variable; hence only a sub-expression that is no modifier itself can be named.
-/

namespace VectorQuery.Expr

variable {options : EvalOptions} {scope : Scope} {e c d : Expr} {x : String}

/-! ## Occurrences -/

/-- The second expression is the first one with the variable `x` in place of some
of the occurrences of `e`. -/
inductive Replaces (e : Expr) (x : String) : Expr → Expr → Prop where
  | here : Replaces e x e (.var x)
  | number (value : Float) : Replaces e x (.number value) (.number value)
  | var (name : String) : Replaces e x (.var name) (.var name)
  | arithmetic {op : ArithmeticOp} {lhs lhs' rhs rhs' : Expr}
      (hlhs : Replaces e x lhs lhs') (hrhs : Replaces e x rhs rhs') :
      Replaces e x (.arithmetic op lhs rhs) (.arithmetic op lhs' rhs')
  | comparison {op : ComparisonOp} {lhs lhs' rhs rhs' : Expr}
      (hlhs : Replaces e x lhs lhs') (hrhs : Replaces e x rhs rhs') :
      Replaces e x (.comparison op lhs rhs) (.comparison op lhs' rhs')
  | set {op : SetOp} {lhs lhs' rhs rhs' : Expr}
      (hlhs : Replaces e x lhs lhs') (hrhs : Replaces e x rhs rhs') :
      Replaces e x (.set op lhs rhs) (.set op lhs' rhs')
  | aggregation {op : AggregationOp} {arg arg' : Expr} (harg : Replaces e x arg arg') :
      Replaces e x (.aggregation op arg) (.aggregation op arg')
  | absent {arg arg' : Expr} (harg : Replaces e x arg arg') :
      Replaces e x (.absent arg) (.absent arg')
  | modifier {m : Modifier} {arg arg' : Expr} (harg : Replaces e x arg arg') :
      Replaces e x (.modifier m arg) (.modifier m arg')

/-! ## Operands without modifiers -/

/-- Only a modifier leaves modifiers on an operand. -/
theorem Yields.eq_ofValue {operand : Operand} (h : Yields options scope e operand)
    (hroot : ∀ m arg, e ≠ .modifier m arg) : operand = .ofValue operand.toValue := by
  cases h with
  | number => rfl
  | modifier => exact absurd rfl (hroot _ _)
  | var | arithmetic | comparison | set | aggregation | absent => rw [Operand.toValue_ofValue]

theorem evalOperand_eq_ofValue (hroot : ∀ m arg, e ≠ .modifier m arg) {v : Value}
    (he : e.eval options scope = .ok v) :
    e.evalOperand options scope = .ok (.ofValue v) := by
  obtain ⟨operand, hoperand, rfl⟩ := eval_eq_ok_iff.mp he
  rw [← hoperand.eq_ofValue hroot, hoperand.evalOperand_eq]

/-! ## Variables in place of occurrences -/

theorem evalOperand_var_insert_self (options : EvalOptions) (scope : Scope) (x : String)
    (v : Value) : (var x).evalOperand options (scope.insert x v) = .ok (.ofValue v) := by
  simp [evalOperand]

theorem evalOperand_var_insert_of_ne {name : String} (h : name ≠ x) (v : Value) :
    (var name).evalOperand options (scope.insert x v) =
      (var name).evalOperand options scope := by
  simp [evalOperand, Std.TreeMap.getElem?_insert, Ne.symm h]

/-- The operands are the same throughout, by induction on the expressions: at a
replaced occurrence by what `x` is bound to, at other variables since they are
not `x`. -/
theorem Replaces.evalOperand_eq (h : Replaces e x c d) {v : Value}
    (he : e.evalOperand options scope = .ok (.ofValue v)) (hx : x ∉ c.varNames) :
    d.evalOperand options (scope.insert x v) = c.evalOperand options scope := by
  induction h with
  | here => rw [evalOperand_var_insert_self, he]
  | number value => rfl
  | var name => exact evalOperand_var_insert_of_ne (Ne.symm (List.mem_singleton.not.mp hx)) v
  | arithmetic _ _ ihl ihr | comparison _ _ ihl ihr | set _ _ ihl ihr =>
      obtain ⟨hl, hr⟩ := not_or.mp (List.mem_append.not.mp hx)
      rw [evalOperand, evalOperand, ihl hl, ihr hr]
  | aggregation _ ih | absent _ ih | modifier _ ih =>
      rw [evalOperand, evalOperand, ih hx]

/-- An expression has the same outcome, with the same value or the same error, if
a variable that does not occur in it takes the place of some occurrences of a
sub-expression, and is bound to the value of that. -/
theorem eval_replaces (h : Replaces e x c d) (hroot : ∀ m arg, e ≠ .modifier m arg)
    {v : Value} (he : e.eval options scope = .ok v) (hx : x ∉ c.varNames) :
    d.eval options (scope.insert x v) = c.eval options scope := by
  rw [eval, eval, h.evalOperand_eq (evalOperand_eq_ofValue hroot he) hx]

/-- The hosts with a number above 50. -/
def largeHosts : Expr := .comparison .larger (.var "hosts") (.number 50)

/-- What `largeHosts` evaluates to in `hostScope`. -/
def largeHostsResult : InstantVector :=
  .ofRows (.ofUnixSeconds 5) [([("host", "h1"), ("dc", "oslo")], 100)]

/-- The processors joined with some of the hosts. -/
def joinedWith (hosts : Expr) : Expr :=
  .multiply (.var "processors") (.on ["host"] (.groupLeft ["dc"] hosts))

theorem eval_replaces_largeHosts :
    Replaces largeHosts "large" (joinedWith largeHosts) (joinedWith (.var "large")) ∧
    (∀ m arg, largeHosts ≠ .modifier m arg) ∧
    largeHosts.eval {} hostScope = .ok (.vector largeHostsResult) ∧
    "large" ∉ (joinedWith largeHosts).varNames ∧
    (joinedWith (.var "large")).eval {} (hostScope.insert "large" (.vector largeHostsResult)) =
      .ok (.vector (.ofRows (.ofUnixSeconds 5)
        [([("cpu", "0"), ("dc", "oslo"), ("host", "h1")], 100),
          ([("cpu", "1"), ("dc", "oslo"), ("host", "h1")], 400)])) := by
  have h : Replaces largeHosts "large" (joinedWith largeHosts) (joinedWith (.var "large")) :=
    .arithmetic (.var "processors") (.modifier (.modifier .here))
  have hroot (m : Modifier) (arg : Expr) : largeHosts ≠ .modifier m arg := nofun
  have he : largeHosts.eval {} hostScope = .ok (.vector largeHostsResult) := by decide +kernel
  have hx : "large" ∉ (joinedWith largeHosts).varNames := by decide
  refine ⟨h, hroot, he, hx, ?_⟩
  rw [eval_replaces h hroot he hx]
  decide +kernel

end VectorQuery.Expr
