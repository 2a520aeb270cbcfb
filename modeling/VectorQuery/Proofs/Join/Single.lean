import VectorQuery.Proofs.Join.Outcome

/-!
# Joins with a single sample

If no labels are matched on, all samples have the same key.  A vector of one sample
is then the partner of every sample of another vector, of which there may be many,
and the join goes through that vector as if there were neither index nor keys.
-/

namespace VectorQuery

theorem LabelSet.overridden_nil (s other : LabelSet) : s.overridden other [] = s := by
  ext n : 1
  rw [get?_overridden, if_neg List.not_mem_nil]

/-- Nothing is kept if nothing is listed. -/
theorem LabelSet.project_on_nil (s : LabelSet) : s.project ⟨[], true⟩ = ∅ := by
  ext n : 1
  rw [get?_project, get?_empty]
  rfl

/-- Matching on no labels, for some cardinality. -/
def JoinSpec.onNothing (cardinality : Cardinality) (returnBool : Bool) : JoinSpec :=
  ⟨⟨cardinality, [], true, []⟩, returnBool⟩

namespace NestedLoop

variable {left right : InstantVector} {cardinality : Cardinality} {returnBool : Bool}

theorem pairsAfter_single (hcard : cardinality ≠ .oneToOne) (o : Sample)
    (earlier many : List Sample) :
    pairsAfter (.onNothing cardinality returnBool) [o] earlier many = many.map (⟨·, o⟩) := by
  have hmatches (earlier : List Sample) (s : Sample) :
      Matches (.onNothing cardinality returnBool) earlier s o :=
    ⟨s.labels.project_on_nil.trans o.labels.project_on_nil.symm, fun h ↦ absurd h hcard⟩
  induction many generalizing earlier with
  | nil => rfl
  | cons s many ih => simp [pairsAfter, hmatches, ih]

theorem labels_onNothing (hcard : cardinality ≠ .oneToOne) (s o : Sample) :
    Pair.labels (.onNothing cardinality returnBool) ⟨s, o⟩ = s.labels := by
  rw [Pair.labels_of_ne_oneToOne hcard]
  exact s.labels.overridden_nil o.labels

/-- Each of many samples keeps its labels, and is combined with the single one. -/
theorem join_single (hcard : cardinality ≠ .oneToOne) {o : Sample} {many : List Sample}
    (hone : oneSide (.onNothing cardinality returnBool) left right = [o])
    (hmany : manySide (.onNothing cardinality returnBool) left right = many)
    (hlabels : (many.map (·.labels)).Nodup) (combine : Combine) :
    left.join right (.onNothing cardinality returnBool) combine =
      .ok ⟨right.time, many.filterMap fun s ↦
        (Pair.value? (.onNothing cardinality returnBool) combine ⟨s, o⟩).map (⟨s.labels, ·⟩)⟩ := by
  have hpairs : pairs (.onNothing cardinality returnBool) left right = many.map (⟨·, o⟩) := by
    rw [pairs, hone, hmany, pairsAfter_single hcard]
  have hkeys : (oneKeys (.onNothing cardinality returnBool) left right).Nodup := by
    rw [oneKeys, hone]
    exact List.nodup_singleton _
  have hresult : (resultLabels (.onNothing cardinality returnBool) combine
      (pairs (.onNothing cardinality returnBool) left right)).Nodup := by
    refine List.Nodup.sublist (resultLabels_sublist _) ?_
    simpa [hpairs, labels_onNothing hcard, Function.comp_def] using hlabels
  rw [InstantVector.join, Join.joinRun_eq_run, run_eq_of_nodup _ _ _ _ hkeys hresult, results,
    hpairs, List.filterMap_map]
  simp only [Function.comp_def, Pair.result?, labels_onNothing hcard]

end NestedLoop

namespace InstantVector

open Join

variable {v u : InstantVector} {o : Sample}

/-- Many samples on the left are combined with the single one on the right. -/
theorem join_single_right (hv : v.labelSets.Nodup) (hu : u.samples = [o]) (returnBool : Bool)
    (combine : Combine) :
    v.join u (.onNothing .manyToOne returnBool) combine =
      .ok ⟨u.time, (v.filterMapValues fun x ↦
        resultValue (.onNothing .manyToOne returnBool) (combine x o.value)).samples⟩ := by
  have hcard : Cardinality.manyToOne ≠ .oneToOne := nofun
  rw [NestedLoop.join_single hcard hu rfl hv]
  simp only [← resultValue_call]
  rfl

/-- The single sample on the left is combined with many on the right. -/
theorem join_single_left (hv : v.labelSets.Nodup) (hu : u.samples = [o]) (returnBool : Bool)
    (combine : Combine) :
    u.join v (.onNothing .oneToMany returnBool) combine =
      .ok (v.filterMapValues fun x ↦
        resultValue (.onNothing .oneToMany returnBool) (combine o.value x)) := by
  have hcard : Cardinality.oneToMany ≠ .oneToOne := nofun
  rw [NestedLoop.join_single hcard hu rfl hv]
  simp only [← resultValue_call]
  rfl

end InstantVector

end VectorQuery
