import VectorQuery.Proofs.Eval.Distinct

/-!
# Shapes are static

Whether an expression is put together rightly does not depend on data.  In two
scopes that bind the same names to values of the same shapes, an expression has
values of the same shape, and the same errors of usage: unknown names, operands
of a wrong shape, and modifiers that are not read.  Only repeated labels and
numbers that are not finite can make one of the evaluations end earlier.

What is carried through both evaluations is that operands have the same shape and
the same modifiers.
-/

namespace VectorQuery

/-- The errors that the labels and numbers of operands decide on.  The others are
errors of usage: `operandType`, `unsupportedModifier` and `unknownVariable`. -/
inductive EvalError.DependsOnData : EvalError → Prop where
  | duplicateLabelSet (duplicate : DuplicateLabels) :
      DependsOnData (.duplicateLabelSet duplicate)
  | nonFiniteResult (op : ArithmeticOp) (value : Float) :
      DependsOnData (.nonFiniteResult op value)

/-! ## Outcomes of two evaluations -/

/-- Outcomes that may differ for their data only: both have succeeded, with
related results, or both have the same error, or one has failed for its data. -/
inductive Alike {α β : Type} (R : α → β → Prop) :
    Except EvalError α → Except EvalError β → Prop where
  | ok {a : α} {b : β} (h : R a b) : Alike R (.ok a) (.ok b)
  | error (e : EvalError) : Alike R (.error e) (.error e)
  | left {e : EvalError} (h : e.DependsOnData) (y : Except EvalError β) : Alike R (.error e) y
  | right {e : EvalError} (h : e.DependsOnData) (x : Except EvalError α) : Alike R x (.error e)

namespace Alike

variable {α β γ δ : Type} {R : α → β → Prop} {S : γ → δ → Prop}

theorem bind {x : Except EvalError α} {y : Except EvalError β} (h : Alike R x y)
    {f : α → Except EvalError γ} {g : β → Except EvalError δ}
    (hfg : ∀ a b, R a b → Alike S (f a) (g b)) : Alike S (x >>= f) (y >>= g) := by
  cases h with
  | ok h => exact hfg _ _ h
  | error e => exact .error e
  | left h y => exact .left h _
  | right h x => exact .right h _

theorem map {x : Except EvalError α} {y : Except EvalError β} (h : Alike R x y)
    {f : α → γ} {g : β → δ} (hfg : ∀ a b, R a b → S (f a) (g b)) :
    Alike S (f <$> x) (g <$> y) := by
  cases h with
  | ok h => exact .ok (hfg _ _ h)
  | error e => exact .error e
  | left h y => exact .left h _
  | right h x => exact .right h _

/-- A check that is the same on both sides. -/
theorem check (x : Except EvalError Unit) {f : Unit → Except EvalError γ}
    {g : Unit → Except EvalError δ} (h : Alike S (f ()) (g ())) :
    Alike S (x >>= f) (x >>= g) := by
  cases x with
  | ok => exact h
  | error e => exact .error e

/-- An error that data does not decide on is met by the same error, or by one
that data does decide on. -/
theorem of_error {e : EvalError} {y : Except EvalError β} (h : Alike R (.error e) y)
    (he : ¬ e.DependsOnData) :
    y = .error e ∨ ∃ e', y = .error e' ∧ e'.DependsOnData := by
  cases h with
  | error => exact .inl rfl
  | left h => exact absurd h he
  | right h => exact .inr ⟨_, rfl, h⟩

end Alike

/-! ## Shapes -/

def Value.SameShape (v w : Value) : Prop := v.typeName = w.typeName

theorem Value.sameShape_scalar (x y : Float) : (scalar x).SameShape (scalar y) := rfl

theorem Value.sameShape_vector (v w : InstantVector) : (vector v).SameShape (vector w) := rfl

/-- Operands of the same shape, vectors with the same modifiers. -/
inductive Operand.SameShape : Operand → Operand → Prop where
  | scalars (x y : Float) : SameShape (.scalar x) (.scalar y)
  | vectors (v w : InstantVector) (m : Modifiers) : SameShape (.vector v m) (.vector w m)

theorem Value.SameShape.ofValue {v w : Value} (h : v.SameShape w) :
    (Operand.ofValue v).SameShape (.ofValue w) := by
  cases v with
  | scalar x =>
      cases w with
      | scalar y => exact .scalars x y
      | vector w => exact absurd h (by simp [Value.SameShape, Value.typeName])
  | vector v =>
      cases w with
      | scalar y => exact absurd h (by simp [Value.SameShape, Value.typeName])
      | vector w => exact .vectors v w {}

theorem Operand.SameShape.toValue {l r : Operand} (h : l.SameShape r) :
    l.toValue.SameShape r.toValue := by
  cases h <;> rfl

/-! ## Operators -/

theorem Operand.modify_alike (m : Modifier) {l r : Operand} (h : l.SameShape r) :
    Alike Operand.SameShape (l.modify m) (r.modify m) := by
  cases h with
  | scalars => exact .error _
  | vectors v w modifiers => exact .ok (.vectors v w (modifiers.apply m))

theorem InstantVector.joinOperands_alike (v v' w w' : InstantVector) (m n : Modifiers)
    (read : List Keyword) (combine combine' : Combine) :
    Alike Value.SameShape (v.joinOperands m w n read combine)
      (v'.joinOperands m w' n read combine') := by
  refine .check _ (.check _ ?_)
  cases v.join w n.joinSpec combine with
  | error duplicate => exact .left (.duplicateLabelSet duplicate) _
  | ok joined =>
      cases v'.join w' n.joinSpec combine' with
      | error duplicate => exact .right (.duplicateLabelSet duplicate) _
      | ok joined' => exact .ok (Value.sameShape_vector joined joined')

theorem ArithmeticOp.evaluate_alike (op : ArithmeticOp) (rejectNonFinite : Bool)
    {l l' r r' : Operand} (hl : l.SameShape l') (hr : r.SameShape r') :
    Alike Value.SameShape (op.evaluate rejectNonFinite l r)
      (op.evaluate rejectNonFinite l' r') := by
  cases hl with
  | scalars x x' =>
      cases hr with
      | scalars y y' =>
          rw [evaluate, evaluate]
          split
          · exact .left (.nonFiniteResult op _) _
          · split
            · exact .right (.nonFiniteResult op _) _
            · exact .ok (Value.sameShape_scalar _ _)
      | vectors w w' n => exact .check _ (.ok (Value.sameShape_vector _ _))
  | vectors v v' m =>
      cases hr with
      | scalars y y' => exact .check _ (.ok (Value.sameShape_vector _ _))
      | vectors w w' n => exact v.joinOperands_alike v' w w' m n _ _ _

theorem ComparisonOp.evaluate_alike (op : ComparisonOp) {l l' r r' : Operand}
    (hl : l.SameShape l') (hr : r.SameShape r') :
    Alike Value.SameShape (op.evaluate l r) (op.evaluate l' r') := by
  cases hl with
  | scalars x x' =>
      cases hr with
      | scalars y y' => exact .ok (Value.sameShape_scalar _ _)
      | vectors w w' n => exact .check _ (.ok (Value.sameShape_vector _ _))
  | vectors v v' m =>
      cases hr with
      | scalars y y' => exact .check _ (.ok (Value.sameShape_vector _ _))
      | vectors w w' n => exact v.joinOperands_alike v' w w' m n _ _ _

theorem SetOp.evaluate_alike (op : SetOp) {l l' r r' : Operand} (hl : l.SameShape l')
    (hr : r.SameShape r') : Alike Value.SameShape (op.evaluate l r) (op.evaluate l' r') := by
  cases hl with
  | scalars => exact .error _
  | vectors v v' m =>
      cases hr with
      | scalars => exact .error _
      | vectors w w' n => exact .check _ (.check _ (.ok (Value.sameShape_vector _ _)))

/-- Whether an aggregation yields a scalar is said by its grouping. -/
theorem InstantVector.aggregate_sameShape (v w : InstantVector) (g : Grouping)
    (reduce : List Float → Float) : (v.aggregate g reduce).SameShape (w.aggregate g reduce) := by
  rw [aggregate, aggregate, aggregateRun, aggregateRun]
  split
  · exact Value.sameShape_scalar _ _
  · exact Value.sameShape_vector _ _

theorem AggregationOp.evaluate_alike (op : AggregationOp) {l r : Operand}
    (h : l.SameShape r) : Alike Value.SameShape (op.evaluate l) (op.evaluate r) := by
  cases h with
  | scalars => exact .error _
  | vectors v w m => exact .check _ (.ok (v.aggregate_sameShape w m.grouping op.reduce))

theorem Operand.absent_alike {l r : Operand} (h : l.SameShape r) :
    Alike Value.SameShape l.absent r.absent := by
  cases h with
  | scalars => exact .error _
  | vectors v w m => exact .check _ (.ok (Value.sameShape_vector _ _))

/-! ## Expressions -/

namespace Expr

variable {scope scope' : Scope}

/-- By induction on the expression: both evaluations take the same steps, until
one of them fails for its data. -/
theorem evalOperand_alike (options : EvalOptions)
    (hscope : ∀ name : String,
      (scope[name]?).map Value.typeName = (scope'[name]?).map Value.typeName)
    (e : Expr) :
    Alike Operand.SameShape (e.evalOperand options scope) (e.evalOperand options scope') := by
  induction e with
  | number value => exact .ok (.scalars value value)
  | var name =>
      have hname := hscope name
      rw [evalOperand, evalOperand]
      cases h : scope[name]? with
      | none =>
          rw [h, Option.map_none, eq_comm, Option.map_eq_none_iff] at hname
          rw [hname]
          exact .error _
      | some v =>
          rw [h, Option.map_some, eq_comm, Option.map_eq_some_iff] at hname
          obtain ⟨w, hw, hshape⟩ := hname
          rw [hw]
          exact .ok (Value.SameShape.ofValue hshape.symm)
  | modifier m arg ih => exact ih.bind fun _ _ h ↦ Operand.modify_alike m h
  | arithmetic op lhs rhs ihl ihr =>
      exact ihl.bind fun _ _ hl ↦ ihr.bind fun _ _ hr ↦
        (op.evaluate_alike options.rejectNonFinite hl hr).map fun _ _ ↦ Value.SameShape.ofValue
  | comparison op lhs rhs ihl ihr =>
      exact ihl.bind fun _ _ hl ↦ ihr.bind fun _ _ hr ↦
        (op.evaluate_alike hl hr).map fun _ _ ↦ Value.SameShape.ofValue
  | set op lhs rhs ihl ihr =>
      exact ihl.bind fun _ _ hl ↦ ihr.bind fun _ _ hr ↦
        (op.evaluate_alike hl hr).map fun _ _ ↦ Value.SameShape.ofValue
  | aggregation op arg ih =>
      exact ih.bind fun _ _ h ↦ (op.evaluate_alike h).map fun _ _ ↦ Value.SameShape.ofValue
  | absent arg ih =>
      exact ih.bind fun _ _ h ↦ (Operand.absent_alike h).map fun _ _ ↦ Value.SameShape.ofValue

/-- In scopes with the same names and shapes, an expression has values of the same
shape.  If it has an error that data does not decide on in one of them, it has
the same error in the other, or fails there for its data; it does not succeed. -/
theorem eval_alike_of_typeName_eq (options : EvalOptions)
    (hscope : ∀ name : String,
      (scope[name]?).map Value.typeName = (scope'[name]?).map Value.typeName)
    (e : Expr) :
    (∀ v w, e.eval options scope = .ok v → e.eval options scope' = .ok w →
      v.typeName = w.typeName) ∧
    ∀ error, e.eval options scope = .error error → ¬ error.DependsOnData →
      e.eval options scope' = .error error ∨
        ∃ error', e.eval options scope' = .error error' ∧ error'.DependsOnData := by
  have halike : Alike Value.SameShape (e.eval options scope) (e.eval options scope') :=
    (evalOperand_alike options hscope e).map fun _ _ ↦ Operand.SameShape.toValue
  constructor
  · intro v w hv hw
    rw [hv, hw] at halike
    cases halike with
    | ok h => exact h
  · intro error herror hdata
    rw [herror] at halike
    exact halike.of_error hdata

/-- A scope with the names and shapes of `hostScope`, but with two samples of the
same host. -/
def crowdedScope : Scope :=
  .ofBindings [("hosts", .vector (.ofRows (.ofUnixSeconds 7)
      [([("host", "h1"), ("dc", "oslo")], 3), ([("host", "h1"), ("dc", "bergen")], 4)])),
    ("processors", .vector NestedLoop.processors)]

/-- The processors joined with their hosts, or else the hosts, with a `bool` that
no operator reads. -/
def joinedOrBool : Expr :=
  .set .or
    (.arithmetic .multiply (.var "processors")
      (.on ["host"] (.groupLeft ["dc"] (.var "hosts"))))
    (.returnBool (.var "hosts"))

/-- In `crowdedScope`, the join fails before the `bool` is met. -/
theorem eval_alike_joinedOrBool :
    (∀ name : String, (hostScope[name]?).map Value.typeName =
      (crowdedScope[name]?).map Value.typeName) ∧
    joinedOrBool.eval {} hostScope = .error (.unsupportedModifier .returnBool) ∧
    (¬ (EvalError.unsupportedModifier .returnBool).DependsOnData) ∧
    (joinedOrBool.eval {} crowdedScope = .error (.unsupportedModifier .returnBool) ∨
      ∃ error, joinedOrBool.eval {} crowdedScope = .error error ∧ error.DependsOnData) ∧
    joinedOrBool.eval {} crowdedScope =
      .error (.duplicateLabelSet ⟨.ofPairs [("host", "h1")], .right⟩) := by
  have hscope (name : String) : (hostScope[name]?).map Value.typeName =
      (crowdedScope[name]?).map Value.typeName := by
    simp only [hostScope, crowdedScope, Scope.ofBindings, List.foldl_cons, List.foldl_nil,
      Std.TreeMap.getElem?_insert, Std.TreeMap.getElem?_emptyc]
    split
    · rfl
    · split <;> rfl
  have herror : joinedOrBool.eval {} hostScope = .error (.unsupportedModifier .returnBool) := by
    decide +kernel
  have husage : ¬ (EvalError.unsupportedModifier .returnBool).DependsOnData := by
    rintro ⟨⟩
  have hstatic := (eval_alike_of_typeName_eq {} hscope joinedOrBool).2 _ herror husage
  exact ⟨hscope, herror, husage, hstatic, by decide +kernel⟩

end Expr

end VectorQuery
