import VectorQuery.Proofs.Join.Single
import VectorQuery.Proofs.Operator.Rules

/-!
# Scalars as vectors of one sample

An operator combines a scalar with each sample of a vector.  It could as well join
the vector with a single sample that has the number of the scalar, matching on no
labels: the samples of the result are the same.  Only a comparison with the scalar
on the left is different, for it keeps the numbers of the vector, and a join those
of its left operand.
-/

namespace VectorQuery

namespace InstantVector

theorem filterMapValues_some (v : InstantVector) (f : Float → Float) :
    (v.filterMapValues fun x ↦ some (f x)) = v.mapValues f := by
  simp [filterMapValues, mapValues]

/-- Which samples are left depends on where there is a number, not on the number. -/
theorem labelSets_filterMapValues_congr (v : InstantVector) {f g : Float → Option Float}
    (h : ∀ x, (f x).isSome = (g x).isSome) :
    (v.filterMapValues f).labelSets = (v.filterMapValues g).labelSets := by
  rw [labelSets, labelSets, filterMapValues, filterMapValues, List.map_filterMap,
    List.map_filterMap]
  refine List.filterMap_congr fun s _ ↦ ?_
  have hs := h s.value
  cases hf : f s.value <;> cases hg : g s.value <;> simp_all

end InstantVector

/-- A comparison that is joined yields what it yields for a scalar, but for the number
that is kept. -/
theorem ComparisonOp.resultValue_eq_verdict (spec : JoinSpec) (holds : Bool) (x : Float) :
    Join.resultValue spec (if holds then some x else none) =
      verdict spec.returnBool holds x := by
  rw [Join.resultValue, verdict, indicator]
  cases holds <;> rfl

/-! ## Operands -/

section Operands

variable {v u : InstantVector} {x : Float} {labels : LabelSet} {n : Modifiers}
variable {returnBool : Bool} {read : List Keyword}

theorem InstantVector.joinOperands_single_right (hv : v.labelSets.Nodup)
    (hu : u.samples = [⟨labels, x⟩]) (hspec : n.joinSpec = .onNothing .manyToOne returnBool)
    (hread : n.ensureRead read = .ok ()) (combine : Combine) :
    v.joinOperands {} u n read combine = .ok (.vector ⟨u.time, (v.filterMapValues fun y ↦
      Join.resultValue (.onNothing .manyToOne returnBool) (combine y x)).samples⟩) := by
  refine joinOperands_eq_ok.mpr ⟨rfl, hread, _, ?_, rfl⟩
  rw [hspec]
  exact join_single_right hv hu returnBool combine

theorem InstantVector.joinOperands_single_left (hv : v.labelSets.Nodup)
    (hu : u.samples = [⟨labels, x⟩]) (hspec : n.joinSpec = .onNothing .oneToMany returnBool)
    (hread : n.ensureRead read = .ok ()) (combine : Combine) :
    u.joinOperands {} v n read combine = .ok (.vector (v.filterMapValues fun y ↦
      Join.resultValue (.onNothing .oneToMany returnBool) (combine x y))) := by
  refine joinOperands_eq_ok.mpr ⟨rfl, hread, _, ?_, rfl⟩
  rw [hspec]
  exact join_single_left hv hu returnBool combine

/-! ## Arithmetic -/

theorem ArithmeticOp.evaluate_single_right (op : ArithmeticOp) (rejectNonFinite : Bool)
    (hv : v.labelSets.Nodup) (hu : u.samples = [⟨labels, x⟩]) :
    op.evaluate rejectNonFinite (.vector v {})
        (.vector u (.ofChain [.on [], .groupLeft []])) =
      .ok (.vector ⟨u.time, (v.mapValues (op.apply · x)).samples⟩) := by
  have hspec : (Modifiers.ofChain [.on [], .groupLeft []]).joinSpec =
    .onNothing .manyToOne false := rfl
  rw [← v.filterMapValues_some]
  exact InstantVector.joinOperands_single_right hv hu hspec rfl _

theorem ArithmeticOp.evaluate_single_left (op : ArithmeticOp) (rejectNonFinite : Bool)
    (hv : v.labelSets.Nodup) (hu : u.samples = [⟨labels, x⟩]) :
    op.evaluate rejectNonFinite (.vector u {})
        (.vector v (.ofChain [.on [], .groupRight []])) =
      .ok (.vector (v.mapValues (op.apply x ·))) := by
  have hspec : (Modifiers.ofChain [.on [], .groupRight []]).joinSpec =
    .onNothing .oneToMany false := rfl
  rw [← v.filterMapValues_some]
  exact InstantVector.joinOperands_single_left hv hu hspec rfl _

/-! ## Comparison -/

theorem ComparisonOp.evaluate_single_right (op : ComparisonOp) (hv : v.labelSets.Nodup)
    (hu : u.samples = [⟨labels, x⟩]) (hspec : n.joinSpec = .onNothing .manyToOne returnBool)
    (hread : n.ensureRead (Keyword.matching ++ [.returnBool]) = .ok ()) :
    op.evaluate (.vector v {}) (.vector u n) =
      .ok (.vector ⟨u.time,
        (v.filterMapValues fun y ↦ verdict returnBool (op.compare y x) y).samples⟩) := by
  rw [evaluate, InstantVector.joinOperands_single_right hv hu hspec hread]
  simp only [resultValue_eq_verdict]
  rfl

theorem ComparisonOp.evaluate_single_left (op : ComparisonOp) (hv : v.labelSets.Nodup)
    (hu : u.samples = [⟨labels, x⟩]) (hspec : n.joinSpec = .onNothing .oneToMany returnBool)
    (hread : n.ensureRead (Keyword.matching ++ [.returnBool]) = .ok ()) :
    op.evaluate (.vector u {}) (.vector v n) =
      .ok (.vector (v.filterMapValues fun y ↦ verdict returnBool (op.compare x y) x)) := by
  rw [evaluate, InstantVector.joinOperands_single_left hv hu hspec hread]
  simp only [resultValue_eq_verdict]
  rfl

/-! ## A scalar and a single sample -/

/-- If no labels are repeated in a vector, an operator on it and a scalar yields the
samples of the join, on no labels, with any vector of one sample that has the number
of the scalar.  With the scalar on the left, the time of the join is that of the
vector, so that nothing differs.  This also goes for comparisons with `bool`.  Without
it, a comparison with the scalar on the left has the same labels as the join, but the
numbers of the vector. -/
theorem evaluate_scalar_and_single (hv : v.labelSets.Nodup) (hu : u.samples = [⟨labels, x⟩]) :
    (∀ (op : ArithmeticOp) (rejectNonFinite : Bool),
      (∃ samples,
        op.evaluate rejectNonFinite (.vector v {}) (.scalar x) =
            .ok (.vector ⟨v.time, samples⟩) ∧
          op.evaluate rejectNonFinite (.vector v {})
              (.vector u (.ofChain [.on [], .groupLeft []])) =
            .ok (.vector ⟨u.time, samples⟩)) ∧
      ∃ result,
        op.evaluate rejectNonFinite (.scalar x) (.vector v {}) = .ok result ∧
          op.evaluate rejectNonFinite (.vector u {})
              (.vector v (.ofChain [.on [], .groupRight []])) =
            .ok result) ∧
    ∀ op : ComparisonOp,
      (∃ samples,
        op.evaluate (.vector v {}) (.scalar x) = .ok (.vector ⟨v.time, samples⟩) ∧
          op.evaluate (.vector v {}) (.vector u (.ofChain [.on [], .groupLeft []])) =
            .ok (.vector ⟨u.time, samples⟩)) ∧
      (∃ samples,
        op.evaluate (.vector v (.ofChain [.returnBool])) (.scalar x) =
            .ok (.vector ⟨v.time, samples⟩) ∧
          op.evaluate (.vector v {})
              (.vector u (.ofChain [.on [], .groupLeft [], .returnBool])) =
            .ok (.vector ⟨u.time, samples⟩)) ∧
      (∃ result,
        op.evaluate (.scalar x) (.vector v (.ofChain [.returnBool])) = .ok result ∧
          op.evaluate (.vector u {})
              (.vector v (.ofChain [.on [], .groupRight [], .returnBool])) =
            .ok result) ∧
      ∃ filtered joined,
        op.evaluate (.scalar x) (.vector v {}) = .ok (.vector filtered) ∧
          op.evaluate (.vector u {}) (.vector v (.ofChain [.on [], .groupRight []])) =
            .ok (.vector joined) ∧
          filtered.labelSets = joined.labelSets := by
  refine ⟨fun op rejectNonFinite ↦ ⟨?_, ?_⟩, fun op ↦ ⟨?_, ?_, ?_, ?_⟩⟩
  · exact ⟨_, rfl, op.evaluate_single_right rejectNonFinite hv hu⟩
  · exact ⟨_, rfl, op.evaluate_single_left rejectNonFinite hv hu⟩
  · exact ⟨_, rfl, op.evaluate_single_right hv hu rfl rfl⟩
  · exact ⟨_, rfl, op.evaluate_single_right hv hu rfl rfl⟩
  · have hspec : (Modifiers.ofChain [.on [], .groupRight [], .returnBool]).joinSpec =
      .onNothing .oneToMany true := rfl
    exact ⟨_, rfl, op.evaluate_single_left hv hu hspec rfl⟩
  · refine ⟨_, _, rfl, op.evaluate_single_left hv hu rfl rfl, ?_⟩
    refine v.labelSets_filterMapValues_congr fun y ↦ ?_
    cases hcompare : op.compare x y <;> rfl

end Operands

/-- A single sample. -/
def threshold : InstantVector := .ofRows (.ofUnixSeconds 9) [([("name", "threshold")], 50)]

/-- The distance of the hosts from the threshold, and those above it. -/
theorem evaluate_scalar_and_threshold :
    NestedLoop.hosts.labelSets.Nodup ∧
    threshold.samples = [⟨.ofPairs [("name", "threshold")], 50⟩] ∧
    ArithmeticOp.subtract.evaluate true (.vector threshold {})
        (.vector NestedLoop.hosts (.ofChain [.on [], .groupRight []])) =
      .ok (.vector (.ofRows (.ofUnixSeconds 5)
        [([("host", "h1"), ("dc", "oslo")], -50), ([("host", "h2"), ("dc", "bergen")], 43)])) ∧
    ComparisonOp.larger.evaluate (.vector NestedLoop.hosts {})
        (.vector threshold (.ofChain [.on [], .groupLeft []])) =
      .ok (.vector (.ofRows (.ofUnixSeconds 9) [([("host", "h1"), ("dc", "oslo")], 100)])) := by
  have hv : NestedLoop.hosts.labelSets.Nodup := by decide
  have hu : threshold.samples = [⟨.ofPairs [("name", "threshold")], 50⟩] := rfl
  obtain ⟨harithmetic, hcomparison⟩ := evaluate_scalar_and_single hv hu
  obtain ⟨result, hscalar, hjoined⟩ := (harithmetic .subtract true).2
  obtain ⟨samples, habove, hjoinedAbove⟩ := (hcomparison .larger).1
  refine ⟨hv, hu, ?_, ?_⟩
  · rw [hjoined, ← hscalar]
    decide +kernel
  · have hsamples : (⟨NestedLoop.hosts.time, samples⟩ : InstantVector) =
        .ofRows (.ofUnixSeconds 5) [([("host", "h1"), ("dc", "oslo")], 100)] := by
      refine Value.vector.inj (Except.ok.inj (habove.symm.trans ?_))
      decide +kernel
    rw [hjoinedAbove, (InstantVector.mk.inj hsamples).2]
    rfl

end VectorQuery
