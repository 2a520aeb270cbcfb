import VectorQuery.Proofs.Aggregate
import VectorQuery.Proofs.Eval.Rules
import VectorQuery.Proofs.Join.Outcome
import VectorQuery.Proofs.Operator.Set

/-!
# Label sets stay distinct

If no vector of the scope has two samples with the same labels, neither has the
result of an evaluation.  Operators come by this in different ways: a join fails
on repeated labels, a union drops them, groups are formed by them, and all else
keeps samples of an operand with the labels that they have.
-/

namespace VectorQuery

/-- No two samples of a value have the same labels. -/
def Value.Distinct : Value → Prop
  | .scalar _ => True
  | .vector v => v.labelSets.Nodup

def Operand.Distinct (operand : Operand) : Prop := operand.toValue.Distinct

theorem Value.Distinct.ofValue {value : Value} (h : value.Distinct) :
    (Operand.ofValue value).Distinct := by
  rwa [Operand.Distinct, Operand.toValue_ofValue]

/-! ## Vectors -/

namespace InstantVector

@[simp] theorem labelSets_mapValues (v : InstantVector) (f : Float → Float) :
    (v.mapValues f).labelSets = v.labelSets := by
  simp [labelSets, mapValues]

theorem labelSets_filterMapValues_sublist (v : InstantVector) (f : Float → Option Float) :
    (v.filterMapValues f).labelSets.Sublist v.labelSets := by
  rw [labelSets, filterMapValues, labelSets]
  induction v.samples with
  | nil => exact List.Sublist.slnil
  | cons s samples ih =>
      cases hs : f s.value with
      | none => simpa [hs] using ih.cons s.labels
      | some value => simpa [hs] using ih

theorem nodup_labelSets_join {left right joined : InstantVector} {spec : JoinSpec}
    {combine : Combine} (h : left.join right spec combine = .ok joined) :
    joined.labelSets.Nodup := by
  obtain ⟨-, hresult, rfl⟩ := NestedLoop.join_eq_ok_iff.mp h
  exact hresult

theorem distinct_aggregate (v : InstantVector) (g : Grouping) (reduce : List Float → Float) :
    (v.aggregate g reduce).Distinct := by
  rw [aggregate, aggregateRun_eq]
  split
  · trivial
  · simpa [Value.Distinct, labelSets, Function.comp_def] using
      v.nodup_groups g.filter

theorem nodup_labelSets_absent (v : InstantVector) : v.absent.labelSets.Nodup := by
  rw [absent]
  split
  · exact List.nodup_singleton _
  · exact List.nodup_nil

end InstantVector

/-! ## Operators -/

theorem ArithmeticOp.Yields.distinct {op : ArithmeticOp} {rejectNonFinite : Bool}
    {l r : Operand} {value : Value} (h : op.Yields rejectNonFinite l r value)
    (hl : l.Distinct) (hr : r.Distinct) : value.Distinct := by
  cases h with
  | scalars => trivial
  | vectors _ _ h => exact InstantVector.nodup_labelSets_join h
  | vectorScalar =>
      rw [Value.Distinct, InstantVector.labelSets_mapValues]
      exact hl
  | scalarVector =>
      rw [Value.Distinct, InstantVector.labelSets_mapValues]
      exact hr

theorem ComparisonOp.Yields.distinct {op : ComparisonOp} {l r : Operand} {value : Value}
    (h : op.Yields l r value) (hl : l.Distinct) (hr : r.Distinct) : value.Distinct := by
  cases h with
  | scalars => trivial
  | vectors _ _ h => exact InstantVector.nodup_labelSets_join h
  | @vectorScalar v => exact hl.sublist (v.labelSets_filterMapValues_sublist _)
  | @scalarVector _ w => exact hr.sublist (w.labelSets_filterMapValues_sublist _)

theorem SetOp.Yields.distinct {op : SetOp} {l r : Operand} {value : Value}
    (h : op.Yields l r value) (hl : l.Distinct) : value.Distinct := by
  cases h with
  | vectors => exact op.nodup_labelSets_apply _ hl

theorem AggregationOp.Yields.distinct {op : AggregationOp} {arg : Operand} {value : Value}
    (h : op.Yields arg value) : value.Distinct := by
  cases h with
  | @vector v m => exact v.distinct_aggregate m.grouping op.reduce

theorem Operand.YieldsAbsent.distinct {arg : Operand} {value : Value}
    (h : arg.YieldsAbsent value) : value.Distinct := by
  cases h with
  | @vector v => exact v.nodup_labelSets_absent

/-! ## Expressions -/

namespace Expr

variable {options : EvalOptions} {scope : Scope} {e : Expr}

/-- By induction on the derivation: modifiers leave the vector as it is, and an
operator has distinct labels whatever its operands are, or has them from these. -/
theorem Yields.distinct
    (hscope : ∀ (name : String) (value : Value), scope[name]? = some value → value.Distinct)
    {operand : Operand} (h : Yields options scope e operand) : operand.Distinct := by
  induction h with
  | number => trivial
  | var h => exact (hscope _ _ h).ofValue
  | modifier _ ih => exact ih
  | arithmetic _ _ h ihl ihr => exact (h.distinct ihl ihr).ofValue
  | comparison _ _ h ihl ihr => exact (h.distinct ihl ihr).ofValue
  | set _ _ h ihl ihr => exact (h.distinct ihl).ofValue
  | aggregation _ h ih => exact h.distinct.ofValue
  | absent _ h ih => exact h.distinct.ofValue

/-- If the samples of each vector in the scope have distinct labels, so have
those of a vector that an expression evaluates to. -/
theorem nodup_labelSets_of_eval
    (hscope : ∀ (name : String) (v : InstantVector),
      scope[name]? = some (.vector v) → v.labelSets.Nodup)
    {v : InstantVector} (h : e.eval options scope = .ok (.vector v)) :
    v.labelSets.Nodup := by
  have hvalues (name : String) (value : Value) (hname : scope[name]? = some value) :
      value.Distinct := by
    cases value with
    | scalar x => trivial
    | vector v => exact hscope name v hname
  obtain ⟨operand, hoperand, hvalue⟩ := eval_eq_ok_iff.mp h
  have hdistinct := hoperand.distinct hvalues
  rwa [Operand.Distinct, hvalue] at hdistinct

/-- The processors joined with their hosts, or else summed up by host. -/
def joinedOrSummed : Expr :=
  .set .or
    (.arithmetic .multiply (.var "processors")
      (.on ["host"] (.groupLeft ["dc"] (.var "hosts"))))
    (.sum (.byLabels ["host"] (.var "processors")))

/-- The vectors that `joinedOrSummed` is about. -/
def hostScope : Scope :=
  .ofBindings [("hosts", .vector NestedLoop.hosts),
    ("processors", .vector NestedLoop.processors)]

/-- What `joinedOrSummed` evaluates to in `hostScope`. -/
def joinedOrSummedResult : InstantVector :=
  .ofRows (.ofUnixSeconds 5)
    [([("cpu", "0"), ("dc", "oslo"), ("host", "h1")], 100),
      ([("cpu", "1"), ("dc", "oslo"), ("host", "h1")], 400),
      ([("host", "h1")], 5), ([("host", "h3")], 9)]

theorem nodup_labelSets_joinedOrSummed :
    (∀ (name : String) (v : InstantVector),
      hostScope[name]? = some (.vector v) → v.labelSets.Nodup) ∧
    joinedOrSummed.eval {} hostScope = .ok (.vector joinedOrSummedResult) ∧
    joinedOrSummedResult.labelSets.Nodup := by
  have hscope (name : String) (v : InstantVector)
      (h : hostScope[name]? = some (.vector v)) : v.labelSets.Nodup := by
    simp only [hostScope, Scope.ofBindings, List.foldl_cons, List.foldl_nil,
      Std.TreeMap.getElem?_insert, Std.TreeMap.getElem?_emptyc] at h
    split at h
    · cases h
      decide
    · split at h
      · cases h
        decide
      · cases h
  have heval : joinedOrSummed.eval {} hostScope = .ok (.vector joinedOrSummedResult) := by
    decide +kernel
  exact ⟨hscope, heval, nodup_labelSets_of_eval hscope heval⟩

end Expr

end VectorQuery
