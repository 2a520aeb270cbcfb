import VectorQuery.Proofs.Eval.Chains
import VectorQuery.Proofs.Join.Pairs

/-!
# Where labels and times come from

An evaluation invents nothing.  Operators drop labels, take labels over from another
sample and put samples of two vectors together, but every label of a result is one of
an operand; and every result has the time of an operand.  So labels and time come from
the vectors that the variables of the expression stand for.  `Expr.timeVar?` goes down
to the variable that the time comes from.
-/

namespace VectorQuery

/-- Some sample of the vector has the label, a pair of name and value. -/
def InstantVector.HasLabel (v : InstantVector) (label : String × String) : Prop :=
  ∃ s ∈ v.samples, label ∈ s.labels.pairs

/-- The value is a vector with the label. -/
def Value.HasLabel : Value → String × String → Prop
  | .scalar _, _ => False
  | .vector v, label => v.HasLabel label

variable {label : String × String}

theorem LabelSet.mem_of_mem_project {s : LabelSet} {f : LabelFilter}
    (h : label ∈ (s.project f).pairs) : label ∈ s.pairs :=
  (mem_project_pairs.mp h).1

theorem LabelSet.mem_of_mem_overridden {s other : LabelSet} {names : List String}
    (h : label ∈ (s.overridden other names).pairs) : label ∈ s.pairs ∨ label ∈ other.pairs := by
  obtain ⟨name, value⟩ := label
  rw [← get?_eq_some_iff, get?_overridden] at h
  split at h
  · rcases Option.or_eq_some_iff.mp h with h | ⟨-, h⟩
    · exact .inr (get?_eq_some_iff.mp h)
    · exact .inl (get?_eq_some_iff.mp h)
  · exact .inl (get?_eq_some_iff.mp h)

/-! ## Joins -/

namespace NestedLoop

variable {spec : JoinSpec}

theorem Pair.mem_of_mem_labels {p : Pair} (h : label ∈ (p.labels spec).pairs) :
    label ∈ p.many.labels.pairs ∨ label ∈ p.one.labels.pairs := by
  rw [Pair.labels] at h
  split at h
  · exact .inl (LabelSet.mem_of_mem_project h)
  · exact LabelSet.mem_of_mem_overridden h

end NestedLoop

namespace InstantVector

open NestedLoop

theorem HasLabel.of_join {left right joined : InstantVector} {spec : JoinSpec}
    {combine : Combine} (h : left.join right spec combine = .ok joined)
    (hlabel : joined.HasLabel label) : left.HasLabel label ∨ right.HasLabel label := by
  obtain ⟨-, -, rfl⟩ := join_eq_ok_iff.mp h
  obtain ⟨s, hs, hlabel⟩ := hlabel
  obtain ⟨p, hp, hresult⟩ := List.mem_filterMap.mp hs
  obtain ⟨value, -, rfl⟩ := Option.map_eq_some_iff.mp hresult
  rcases mem_samples_of_mem_pairs hp with ⟨hmany, hone⟩ | ⟨hmany, hone⟩
  · exact (Pair.mem_of_mem_labels hlabel).imp (⟨_, hmany, ·⟩) (⟨_, hone, ·⟩)
  · exact (Pair.mem_of_mem_labels hlabel).symm.imp (⟨_, hone, ·⟩) (⟨_, hmany, ·⟩)

theorem time_of_join {left right joined : InstantVector} {spec : JoinSpec}
    {combine : Combine} (h : left.join right spec combine = .ok joined) :
    joined.time = right.time := by
  obtain ⟨-, -, rfl⟩ := join_eq_ok_iff.mp h
  rfl

/-! ## Other operations on vectors -/

theorem HasLabel.of_mapValues {v : InstantVector} {f : Float → Float}
    (h : (v.mapValues f).HasLabel label) : v.HasLabel label := by
  obtain ⟨s, hs, hlabel⟩ := h
  obtain ⟨t, ht, rfl⟩ := List.mem_map.mp hs
  exact ⟨t, ht, hlabel⟩

theorem HasLabel.of_filterMapValues {v : InstantVector} {f : Float → Option Float}
    (h : (v.filterMapValues f).HasLabel label) : v.HasLabel label := by
  obtain ⟨s, hs, hlabel⟩ := h
  obtain ⟨t, ht, hresult⟩ := List.mem_filterMap.mp hs
  obtain ⟨value, -, rfl⟩ := Option.map_eq_some_iff.mp hresult
  exact ⟨t, ht, hlabel⟩

/-- The labels of a group are some of the labels of each of its samples. -/
theorem hasLabel_of_aggregate {v : InstantVector} {g : Grouping}
    {reduce : List Float → Float} (h : (v.aggregate g reduce).HasLabel label) :
    v.HasLabel label := by
  rw [aggregate, aggregateRun_eq] at h
  split at h
  · exact absurd h id
  · obtain ⟨s, hs, hlabel⟩ := h
    rw [groups_eq_ofSamples, Group.ofSamples, List.map_map] at hs
    obtain ⟨labels, hlabels, rfl⟩ := List.mem_map.mp hs
    obtain ⟨t, ht, rfl⟩ := Group.mem_keys.mp hlabels
    exact ⟨t, ht, LabelSet.mem_of_mem_project hlabel⟩

theorem not_hasLabel_absent (v : InstantVector) : ¬ v.absent.HasLabel label := by
  rintro ⟨s, hs, hlabel⟩
  rw [absent] at hs
  split at hs
  · obtain rfl := List.mem_singleton.mp hs
    cases hlabel
  · cases hs

theorem time_absent (v : InstantVector) : v.absent.time = v.time := by
  rw [absent]
  split <;> rfl

end InstantVector

namespace SetOp

theorem mem_of_mem_apply {op : SetOp} {v w : InstantVector} {s : Sample}
    (h : s ∈ (op.apply v w).samples) : s ∈ v.samples ∨ s ∈ w.samples := by
  match op with
  | .and | .unless => exact .inl (List.mem_filter.mp h).1
  | .or =>
      rw [apply_or] at h
      exact List.mem_append.mp (List.mem_of_find?_eq_some (mem_firstsAfter_iff.mp h).2)

end SetOp

/-! ## Operators -/

section Operators

variable {l r arg : Operand} {value : Value} {v : InstantVector}

theorem ArithmeticOp.Yields.hasLabel {op : ArithmeticOp} {rejectNonFinite : Bool}
    (h : op.Yields rejectNonFinite l r value) (hlabel : value.HasLabel label) :
    l.toValue.HasLabel label ∨ r.toValue.HasLabel label := by
  cases h with
  | scalars => exact absurd hlabel id
  | vectors _ _ h => exact InstantVector.HasLabel.of_join h hlabel
  | vectorScalar => exact .inl (InstantVector.HasLabel.of_mapValues hlabel)
  | scalarVector => exact .inr (InstantVector.HasLabel.of_mapValues hlabel)

theorem ComparisonOp.Yields.hasLabel {op : ComparisonOp} (h : op.Yields l r value)
    (hlabel : value.HasLabel label) : l.toValue.HasLabel label ∨ r.toValue.HasLabel label := by
  cases h with
  | scalars => exact absurd hlabel id
  | vectors _ _ h => exact InstantVector.HasLabel.of_join h hlabel
  | vectorScalar => exact .inl (InstantVector.HasLabel.of_filterMapValues hlabel)
  | scalarVector => exact .inr (InstantVector.HasLabel.of_filterMapValues hlabel)

theorem SetOp.Yields.hasLabel {op : SetOp} (h : op.Yields l r value)
    (hlabel : value.HasLabel label) : l.toValue.HasLabel label ∨ r.toValue.HasLabel label := by
  cases h with
  | vectors =>
      obtain ⟨s, hs, hlabel⟩ := hlabel
      exact (mem_of_mem_apply hs).imp (⟨s, ·, hlabel⟩) (⟨s, ·, hlabel⟩)

theorem AggregationOp.Yields.hasLabel {op : AggregationOp} (h : op.Yields arg value)
    (hlabel : value.HasLabel label) : arg.toValue.HasLabel label := by
  cases h with
  | vector => exact InstantVector.hasLabel_of_aggregate hlabel

theorem Operand.YieldsAbsent.not_hasLabel (h : arg.YieldsAbsent value) :
    ¬ value.HasLabel label := by
  cases h with
  | @vector v => exact v.not_hasLabel_absent

/-- Which of two operands has the time of a result: the right one of two vectors, and
the vector beside a scalar. -/
inductive HasTimeOfOperand (v : InstantVector) : Value → Value → Prop where
  | vectors {left right : InstantVector} (h : v.time = right.time) :
      HasTimeOfOperand v (.vector left) (.vector right)
  | vectorScalar {left : InstantVector} {y : Float} (h : v.time = left.time) :
      HasTimeOfOperand v (.vector left) (.scalar y)
  | scalarVector {x : Float} {right : InstantVector} (h : v.time = right.time) :
      HasTimeOfOperand v (.scalar x) (.vector right)

theorem ArithmeticOp.Yields.hasTime {op : ArithmeticOp} {rejectNonFinite : Bool}
    (h : op.Yields rejectNonFinite l r (.vector v)) :
    HasTimeOfOperand v l.toValue r.toValue := by
  cases h with
  | vectors _ _ h => exact .vectors (InstantVector.time_of_join h)
  | vectorScalar => exact .vectorScalar rfl
  | scalarVector => exact .scalarVector rfl

theorem ComparisonOp.Yields.hasTime {op : ComparisonOp} (h : op.Yields l r (.vector v)) :
    HasTimeOfOperand v l.toValue r.toValue := by
  cases h with
  | vectors _ _ h => exact .vectors (InstantVector.time_of_join h)
  | vectorScalar => exact .vectorScalar rfl
  | scalarVector => exact .scalarVector rfl

theorem SetOp.Yields.hasTime {op : SetOp} (h : op.Yields l r (.vector v)) :
    ∃ left, l.toValue = .vector left ∧ v.time = left.time := by
  cases h with
  | @vectors left right => exact ⟨left, rfl, op.time_apply left right⟩

theorem AggregationOp.Yields.hasTime {op : AggregationOp} (h : op.Yields arg (.vector v)) :
    ∃ w, arg.toValue = .vector w ∧ v.time = w.time := by
  generalize hvalue : Value.vector v = value at h
  cases h with
  | @vector w m =>
      rw [InstantVector.aggregate, InstantVector.aggregateRun_eq] at hvalue
      split at hvalue
      · cases hvalue
      · cases hvalue
        exact ⟨w, rfl, rfl⟩

theorem Operand.YieldsAbsent.hasTime (h : arg.YieldsAbsent (.vector v)) :
    ∃ w, arg.toValue = .vector w ∧ v.time = w.time := by
  cases h with
  | @vector w => exact ⟨w, rfl, w.time_absent⟩

end Operators

/-! ## Expressions -/

namespace Expr

variable (options : EvalOptions) (scope : Scope)

/-- Of what belongs to two operands, that of the operand which a result has its time
from: of the right one of two vectors, and of the vector beside a scalar. -/
def ofTimed (left right : Except EvalError Value) (ofLeft ofRight : Option String) :
    Option String :=
  match left, right with
  | .ok (.vector _), .ok (.vector _) => ofRight
  | .ok (.vector _), .ok (.scalar _) => ofLeft
  | .ok (.scalar _), .ok (.vector _) => ofRight
  | _, _ => none

/-- The variable that the time of the value comes from. -/
def timeVar? : Expr → Option String
  | .number _ => none
  | .var name => some name
  | .arithmetic _ lhs rhs =>
      ofTimed (lhs.eval options scope) (rhs.eval options scope) lhs.timeVar? rhs.timeVar?
  | .comparison _ lhs rhs =>
      ofTimed (lhs.eval options scope) (rhs.eval options scope) lhs.timeVar? rhs.timeVar?
  | .set _ lhs _ => lhs.timeVar?
  | .aggregation _ arg => arg.timeVar?
  | .absent arg => arg.timeVar?
  | .modifier _ arg => arg.timeVar?

/-- A variable of the expression stands for a vector with the label. -/
def ScopeHasLabel (e : Expr) (label : String × String) : Prop :=
  ∃ name ∈ e.varNames, ∃ w, scope[name]? = some (.vector w) ∧ w.HasLabel label

/-- The vector has the time of the vector that a variable stands for. -/
def HasTimeOfVar (v : InstantVector) (name? : Option String) : Prop :=
  ∃ name w, name? = some name ∧ scope[name]? = some (.vector w) ∧ v.time = w.time

variable {options scope} {e lhs rhs : Expr}

theorem ScopeHasLabel.mono {d : Expr} (h : ScopeHasLabel scope d label)
    (hvars : ∀ name ∈ d.varNames, name ∈ e.varNames) : ScopeHasLabel scope e label := by
  obtain ⟨name, hname, h⟩ := h
  exact ⟨name, hvars name hname, h⟩

/-- By induction on the derivation: operators have labels from one of their operands. -/
theorem Yields.scopeHasLabel {operand : Operand} (h : Yields options scope e operand)
    (hlabel : operand.toValue.HasLabel label) : ScopeHasLabel scope e label := by
  induction h with
  | number => exact absurd hlabel id
  | @var name value h =>
      rw [Operand.toValue_ofValue] at hlabel
      cases value with
      | scalar => exact absurd hlabel id
      | vector w => exact ⟨name, List.mem_singleton_self name, w, h, hlabel⟩
  | modifier _ ih => exact ih hlabel
  | arithmetic _ _ h ihl ihr | comparison _ _ h ihl ihr | set _ _ h ihl ihr =>
      rw [Operand.toValue_ofValue] at hlabel
      rcases h.hasLabel hlabel with hl | hr
      · exact (ihl hl).mono fun _ ↦ List.mem_append_left _
      · exact (ihr hr).mono fun _ ↦ List.mem_append_right _
  | aggregation _ h ih =>
      rw [Operand.toValue_ofValue] at hlabel
      exact ih (h.hasLabel hlabel)
  | absent _ h =>
      rw [Operand.toValue_ofValue] at hlabel
      exact absurd hlabel h.not_hasLabel

theorem HasTimeOfVar.of_time_eq {v w : InstantVector} {name? : Option String}
    (hw : HasTimeOfVar scope w name?) (h : v.time = w.time) : HasTimeOfVar scope v name? := by
  obtain ⟨name, u, hname, hu, htime⟩ := hw
  exact ⟨name, u, hname, hu, h.trans htime⟩

/-- The time of a result on two operands comes from where that of the operand does. -/
theorem HasTimeOfVar.ofTimed {v : InstantVector} {l r : Value} {ofLeft ofRight : Option String}
    (h : HasTimeOfOperand v l r)
    (hl : ∀ w, l = .vector w → HasTimeOfVar scope w ofLeft)
    (hr : ∀ w, r = .vector w → HasTimeOfVar scope w ofRight) :
    HasTimeOfVar scope v (ofTimed (.ok l) (.ok r) ofLeft ofRight) := by
  cases h with
  | vectors h => exact (hr _ rfl).of_time_eq h
  | vectorScalar h => exact (hl _ rfl).of_time_eq h
  | scalarVector h => exact (hr _ rfl).of_time_eq h

/-- By induction on the derivation: operators have their time from one of their operands,
to which `timeVar?` goes down. -/
theorem Yields.hasTimeOfVar {operand : Operand} (h : Yields options scope e operand)
    {v : InstantVector} (hv : operand.toValue = .vector v) :
    HasTimeOfVar scope v (e.timeVar? options scope) := by
  induction h generalizing v with
  | number => cases hv
  | @var name value h =>
      rw [Operand.toValue_ofValue] at hv
      exact ⟨name, v, rfl, hv ▸ h, rfl⟩
  | modifier _ ih => exact ih hv
  | arithmetic hlhs hrhs h ihl ihr | comparison hlhs hrhs h ihl ihr =>
      rw [Operand.toValue_ofValue] at hv
      subst hv
      rw [timeVar?, hlhs.eval_eq, hrhs.eval_eq]
      exact .ofTimed h.hasTime (fun _ ↦ ihl) (fun _ ↦ ihr)
  | set _ _ h ihl ihr =>
      rw [Operand.toValue_ofValue] at hv
      subst hv
      obtain ⟨w, hw, htime⟩ := h.hasTime
      exact (ihl hw).of_time_eq htime
  | aggregation _ h ih | absent _ h ih =>
      rw [Operand.toValue_ofValue] at hv
      subst hv
      obtain ⟨w, hw, htime⟩ := h.hasTime
      exact (ih hw).of_time_eq htime

theorem ofTimed_eq_some {left right : Except EvalError Value} {ofLeft ofRight : Option String}
    {name : String} (h : ofTimed left right ofLeft ofRight = some name) :
    ofLeft = some name ∨ ofRight = some name := by
  unfold ofTimed at h
  split at h
  · exact .inr h
  · exact .inl h
  · exact .inr h
  · cases h

theorem mem_varNames_of_timeVar? {name : String} (h : e.timeVar? options scope = some name) :
    name ∈ e.varNames := by
  induction e with
  | number => cases h
  | var => exact List.mem_singleton.mpr (Option.some.inj h).symm
  | arithmetic _ _ _ ihl ihr | comparison _ _ _ ihl ihr =>
      exact List.mem_append.mpr ((ofTimed_eq_some h).imp ihl ihr)
  | set _ _ _ ihl => exact List.mem_append_left _ (ihl h)
  | aggregation _ _ ih | absent _ ih | modifier _ _ ih => exact ih h

/-- Every label of a vector that an expression evaluates to is a label of a vector that
one of its variables stands for, and the vector has the time of the one that `timeVar?`
goes down to. -/
theorem exists_origin_of_eval {v : InstantVector} (h : e.eval options scope = .ok (.vector v)) :
    (∀ s ∈ v.samples, ∀ label ∈ s.labels.pairs, ∃ name ∈ e.varNames, ∃ w,
      scope[name]? = some (.vector w) ∧ ∃ t ∈ w.samples, label ∈ t.labels.pairs) ∧
    ∃ name w, e.timeVar? options scope = some name ∧ name ∈ e.varNames ∧
      scope[name]? = some (.vector w) ∧ v.time = w.time := by
  obtain ⟨operand, hoperand, hvalue⟩ := eval_eq_ok_iff.mp h
  constructor
  · intro s hs label hlabel
    have hhas : operand.toValue.HasLabel label := by
      rw [hvalue]
      exact ⟨s, hs, hlabel⟩
    exact hoperand.scopeHasLabel hhas
  · obtain ⟨name, w, hname, hw, htime⟩ := hoperand.hasTimeOfVar hvalue
    exact ⟨name, w, hname, mem_varNames_of_timeVar? hname, hw, htime⟩

/-- In the first sample of `joinedOrSummed`, the data centre is that of a host and the
rest of the labels those of a processor.  The time is that of the hosts. -/
theorem exists_origin_joinedOrSummed :
    joinedOrSummed.eval {} hostScope = .ok (.vector joinedOrSummedResult) ∧
    (∃ s ∈ joinedOrSummedResult.samples, ("dc", "oslo") ∈ s.labels.pairs) ∧
    (∃ name ∈ joinedOrSummed.varNames, ∃ w, hostScope[name]? = some (.vector w) ∧
      ∃ t ∈ w.samples, ("dc", "oslo") ∈ t.labels.pairs) ∧
    joinedOrSummed.timeVar? {} hostScope = some "hosts" ∧
    (∃ name w, joinedOrSummed.timeVar? {} hostScope = some name ∧
      name ∈ joinedOrSummed.varNames ∧ hostScope[name]? = some (.vector w) ∧
      joinedOrSummedResult.time = w.time) := by
  have heval : joinedOrSummed.eval {} hostScope = .ok (.vector joinedOrSummedResult) := by
    decide +kernel
  have hlabel : ∃ s ∈ joinedOrSummedResult.samples, ("dc", "oslo") ∈ s.labels.pairs := by
    decide
  obtain ⟨hlabels, htime⟩ := exists_origin_of_eval heval
  obtain ⟨s, hs, hdc⟩ := hlabel
  exact ⟨heval, ⟨s, hs, hdc⟩, hlabels s hs _ hdc, by decide +kernel, htime⟩

end Expr

end VectorQuery
