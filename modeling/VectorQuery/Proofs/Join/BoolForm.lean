import VectorQuery.Proofs.Join.Outcome
import VectorQuery.Proofs.Join.Pairs

/-!
# Joins with `bool`

With `bool`, a join has a result for each matched pair, and without it only for
the pairs that are kept.  The pairs are the same, so that the results of the one
join are some of the results of the other, with other numbers.  Hence labels that
are repeated without `bool` are repeated with it.  The converse fails if there may
be many samples for one: a pair that is not kept may have the labels of another.
-/

namespace VectorQuery

/-- The same way to join, with `bool`. -/
def JoinSpec.withBool (spec : JoinSpec) : JoinSpec := { spec with returnBool := true }

namespace NestedLoop

variable {left right : InstantVector} {spec : JoinSpec} {combine : Combine}

/-! ## The pairs -/

theorem pairsAfter_withBool (spec : JoinSpec) (one earlier many : List Sample) :
    pairsAfter spec.withBool one earlier many = pairsAfter spec one earlier many := by
  induction many generalizing earlier with
  | nil => rfl
  | cons s many ih =>
      rw [pairsAfter, pairsAfter, ih]
      rfl

theorem pairs_withBool (spec : JoinSpec) (left right : InstantVector) :
    pairs spec.withBool left right = pairs spec left right :=
  pairsAfter_withBool spec _ [] _

/-! ## The results -/

/-- Without `bool`, a pair yields the combined number. -/
theorem value?_of_returnBool_eq_false (h : spec.returnBool = false) (p : Pair) :
    p.value? spec combine = combine (p.call spec).1 (p.call spec).2 := by
  rw [Pair.value?, h]

/-- The sample that says whether a pair is kept. -/
def Pair.verdict (spec : JoinSpec) (combine : Combine) (p : Pair) : Sample :=
  ⟨p.labels spec, if (combine (p.call spec).1 (p.call spec).2).isSome then 1.0 else 0.0⟩

theorem result?_withBool (spec : JoinSpec) (combine : Combine) (p : Pair) :
    p.result? spec.withBool combine = some (p.verdict spec combine) := by
  have hcall : p.call spec.withBool = p.call spec := rfl
  have hlabels : p.labels spec.withBool = p.labels spec := rfl
  have hbool : spec.withBool.returnBool = true := rfl
  rw [Pair.result?, Pair.value?, Pair.verdict, hbool, hcall, hlabels]
  cases combine (p.call spec).1 (p.call spec).2 <;> rfl

theorem results_withBool (spec : JoinSpec) (combine : Combine) (ps : List Pair) :
    results spec.withBool combine ps = ps.map (·.verdict spec combine) := by
  simp [results, result?_withBool]

theorem resultLabels_withBool (spec : JoinSpec) (combine : Combine) (ps : List Pair) :
    resultLabels spec.withBool combine ps = ps.map (·.labels spec) := by
  rw [resultLabels, results_withBool, List.map_map]
  rfl

/-! ## The outcomes -/

/-- A join and its form with `bool` have a repeated key in common, or both succeed,
or the one with `bool` fails for its results.  In this last case the other one
fails for its results too, unless there may be many samples for one. -/
theorem outcome_withBool_cases (left right : InstantVector) (spec : JoinSpec)
    (combine : Combine) :
    (∃ labels,
      left.join right spec.withBool combine = .error ⟨labels, oneSideName spec⟩ ∧
        left.join right spec combine = .error ⟨labels, oneSideName spec⟩) ∨
    (left.join right spec.withBool combine =
        .ok ⟨right.time, (pairs spec left right).map (·.verdict spec combine)⟩ ∧
      left.join right spec combine =
        .ok ⟨right.time, results spec combine (pairs spec left right)⟩) ∨
    ∃ labels, left.join right spec.withBool combine = .error ⟨labels, .result⟩ ∧
      ((∃ joined, left.join right spec combine = .ok joined) ∧
          spec.matching.cardinality ≠ .oneToOne ∨
        ∃ labels', left.join right spec combine = .error ⟨labels', .result⟩) := by
  simp only [InstantVector.join, Join.joinRun_eq_run]
  have hkeys : oneKeys spec.withBool left right = oneKeys spec left right := rfl
  by_cases hone : (oneKeys spec left right).Nodup
  · refine .inr ?_
    by_cases hlabels : ((pairs spec left right).map (·.labels spec)).Nodup
    · have hbool :
          (resultLabels spec.withBool combine (pairs spec.withBool left right)).Nodup := by
        rwa [resultLabels_withBool, pairs_withBool]
      have hresult : (resultLabels spec combine (pairs spec left right)).Nodup :=
        hlabels.sublist (resultLabels_sublist _)
      refine .inl ⟨?_, by rw [run_eq_of_nodup left right spec combine hone hresult]⟩
      rw [run_eq_of_nodup left right spec.withBool combine (hkeys ▸ hone) hbool,
        results_withBool, pairs_withBool]
    · have hbool :
          ¬ (resultLabels spec.withBool combine (pairs spec.withBool left right)).Nodup := by
        rwa [resultLabels_withBool, pairs_withBool]
      obtain ⟨_, _, _, s, -, -, -, -, hrun⟩ :=
        exists_run_of_result_repeated left right spec.withBool combine (hkeys ▸ hone) hbool
      refine .inr ⟨s.labels, by rw [hrun], ?_⟩
      by_cases hresult : (resultLabels spec combine (pairs spec left right)).Nodup
      · refine .inl ⟨⟨_, by rw [run_eq_of_nodup left right spec combine hone hresult]⟩, ?_⟩
        exact fun hcard ↦ hlabels (nodup_labels_pairsAfter hcard hone [] _)
      · obtain ⟨_, _, _, t, -, -, -, -, hrun⟩ :=
          exists_run_of_result_repeated left right spec combine hone hresult
        exact .inr ⟨t.labels, by rw [hrun]⟩
  · obtain ⟨labels, hlabels⟩ := exists_firstRepeat?_eq_some hone
    refine .inl ⟨labels, ?_, by rw [run, hlabels]⟩
    rw [run, hkeys, hlabels]
    rfl

end NestedLoop

end VectorQuery
