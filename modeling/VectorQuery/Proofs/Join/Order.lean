import VectorQuery.Proofs.Join.Outcome
import VectorQuery.Proofs.Join.Pairs

/-!
# The order of the samples

How far a join depends on the order in which the samples of its operands are given.
On the indexed side the order is of no importance, but for which of several repeated
keys is reported.  On the walked side it is the order of the result; as long as no
sample is matched in place of another, the pairs are the same, and whether labels are
repeated among all results does not depend on where a run gives up.
-/

namespace VectorQuery

/-- The same samples at the same time, in any order. -/
def InstantVector.Rearranged (v w : InstantVector) : Prop :=
  v.time = w.time ∧ v.samples.Perm w.samples

namespace NestedLoop

variable {left right left' right' : InstantVector} {spec : JoinSpec} {combine : Combine}
variable {one one' many many' earlier : List Sample}

theorem oneSide_perm (hleft : left.Rearranged left') (hright : right.Rearranged right')
    (spec : JoinSpec) : (oneSide spec left right).Perm (oneSide spec left' right') := by
  rw [oneSide, oneSide]
  split
  · exact hleft.2
  · exact hright.2

theorem manySide_perm (hleft : left.Rearranged left') (hright : right.Rearranged right')
    (spec : JoinSpec) : (manySide spec left right).Perm (manySide spec left' right') := by
  rw [manySide, manySide]
  split
  · exact hright.2
  · exact hleft.2

/-! ## The pairs -/

/-- Among samples with keys of their own, the partner of a sample is found in any
order. -/
theorem filter_matches_eq_of_perm (hone : (one.map (·.key spec.matching.filter)).Nodup)
    (hperm : one.Perm one') (earlier : List Sample) (s : Sample) :
    one.filter (Matches spec earlier s) = one'.filter (Matches spec earlier s) := by
  have hone' := (hperm.map (·.key spec.matching.filter)).nodup hone
  have hpartner := hperm.filter (Matches spec earlier s)
  rw [Join.filter_matches_eq hone, Join.filter_matches_eq hone', List.perm_option_toList]
    at hpartner
  rw [Join.filter_matches_eq hone, Join.filter_matches_eq hone', hpartner]

theorem pairsAfter_eq_of_perm (hone : (one.map (·.key spec.matching.filter)).Nodup)
    (hperm : one.Perm one') (earlier many : List Sample) :
    pairsAfter spec one earlier many = pairsAfter spec one' earlier many := by
  induction many generalizing earlier with
  | nil => rfl
  | cons s many ih =>
      rw [pairsAfter, pairsAfter, filter_matches_eq_of_perm hone hperm, ih]

/-- Unless an earlier sample can take the partner of a later one, the pairs follow the
walked side in its order. -/
theorem pairsAfter_perm_of_perm
    (hmany : spec.matching.cardinality = .oneToOne →
      (many.map (·.key spec.matching.filter)).Nodup)
    (hperm : many.Perm many') :
    (pairsAfter spec one [] many).Perm (pairsAfter spec one [] many') := by
  have hmany' (hcard : spec.matching.cardinality = .oneToOne) :
      (many'.map (·.key spec.matching.filter)).Nodup :=
    (hperm.map _).nodup (hmany hcard)
  rw [pairsAfter_eq_flatMap hmany, pairsAfter_eq_flatMap hmany']
  exact hperm.flatMap_right _

/-! ## The runs -/

theorem run_eq_of_pairs_eq (hone : (oneKeys spec left right).Nodup)
    (hone' : (oneKeys spec left' right').Nodup)
    (hpairs : pairs spec left right = pairs spec left' right')
    (htime : right.time = right'.time) :
    run spec combine left right = run spec combine left' right' := by
  rw [run, run, firstRepeat?_nil_eq_none_iff.mpr hone, firstRepeat?_nil_eq_none_iff.mpr hone',
    hpairs, htime]

/-- What becomes of a run whose pairs are put into another order. -/
theorem run_cases_of_pairs_perm (hone : (oneKeys spec left right).Nodup)
    (hone' : (oneKeys spec left' right').Nodup)
    (hpairs : (pairs spec left right).Perm (pairs spec left' right'))
    (htime : right.time = right'.time) :
    (∃ joined joined',
      (run spec combine left right).outcome = .ok joined ∧
        (run spec combine left' right').outcome = .ok joined' ∧
        joined.Rearranged joined' ∧
        (run spec combine left right).calls.Perm (run spec combine left' right').calls) ∨
      ∃ labels labels',
        (run spec combine left right).outcome = .error ⟨labels, .result⟩ ∧
          (run spec combine left' right').outcome = .error ⟨labels', .result⟩ := by
  have hresults : (results spec combine (pairs spec left right)).Perm
      (results spec combine (pairs spec left' right')) := hpairs.filterMap _
  have hlabels : (resultLabels spec combine (pairs spec left right)).Nodup ↔
      (resultLabels spec combine (pairs spec left' right')).Nodup :=
    (hresults.map _).nodup_iff
  by_cases hresult : (resultLabels spec combine (pairs spec left right)).Nodup
  · rw [run_eq_of_nodup left right spec combine hone hresult,
      run_eq_of_nodup left' right' spec combine hone' (hlabels.mp hresult)]
    exact .inl ⟨_, _, rfl, rfl, ⟨htime, hresults⟩, hpairs.map _⟩
  · obtain ⟨labels, h⟩ :=
      (exists_run_outcome_eq_result_iff left right spec combine).mpr ⟨hone, hresult⟩
    obtain ⟨labels', h'⟩ :=
      (exists_run_outcome_eq_result_iff left' right' spec combine).mpr
        ⟨hone', mt hlabels.mpr hresult⟩
    exact .inr ⟨labels, labels', h, h'⟩

/-! ## The join -/

/-- If only samples of the indexed side are put into another order, the same pairs are
matched and the run of a join stays the same, or fails as before for a repeated key.  If
only samples of the walked side are, and no key is repeated there where both sides are
unique, then the samples of the result come in another order, or the run fails as before:
for the same repeated key, or for labels that are repeated among the results. -/
theorem joinRun_rearranged (hleft : left.Rearranged left') (hright : right.Rearranged right')
    (spec : JoinSpec) (combine : Combine) :
    (manySide spec left right = manySide spec left' right' →
      ((oneKeys spec left right).Nodup →
        pairs spec left right = pairs spec left' right' ∧
          left.joinRun right spec combine = left'.joinRun right' spec combine) ∧
      (¬ (oneKeys spec left right).Nodup →
        ∃ labels labels',
          left.joinRun right spec combine = ⟨[], .error ⟨labels, oneSideName spec⟩⟩ ∧
            left'.joinRun right' spec combine =
              ⟨[], .error ⟨labels', oneSideName spec⟩⟩)) ∧
    (oneSide spec left right = oneSide spec left' right' →
      (spec.matching.cardinality = .oneToOne →
        ((manySide spec left right).map (·.key spec.matching.filter)).Nodup) →
      (∃ joined joined',
        left.join right spec combine = .ok joined ∧
          left'.join right' spec combine = .ok joined' ∧ joined.Rearranged joined' ∧
          (left.joinRun right spec combine).calls.Perm
            (left'.joinRun right' spec combine).calls) ∨
        (∃ labels,
          left.joinRun right spec combine = ⟨[], .error ⟨labels, oneSideName spec⟩⟩ ∧
            left'.joinRun right' spec combine =
              ⟨[], .error ⟨labels, oneSideName spec⟩⟩) ∨
        ∃ labels labels',
          left.join right spec combine = .error ⟨labels, .result⟩ ∧
            left'.join right' spec combine = .error ⟨labels', .result⟩) := by
  simp only [InstantVector.join, Join.joinRun_eq_run]
  constructor
  · intro hwalked
    have hperm := oneSide_perm hleft hright spec
    have hkeys : (oneKeys spec left right).Nodup ↔ (oneKeys spec left' right').Nodup :=
      (hperm.map _).nodup_iff
    refine ⟨fun hone ↦ ?_, fun hone ↦ ?_⟩
    · have hpairs : pairs spec left right = pairs spec left' right' := by
        rw [pairs, pairs, hwalked, pairsAfter_eq_of_perm hone hperm]
      exact ⟨hpairs, run_eq_of_pairs_eq hone (hkeys.mp hone) hpairs hright.1⟩
    · obtain ⟨labels, h⟩ := exists_firstRepeat?_eq_some hone
      obtain ⟨labels', h'⟩ := exists_firstRepeat?_eq_some (mt hkeys.mpr hone)
      exact ⟨labels, labels', by rw [run, h], by rw [run, h']⟩
  · intro hindexed hmany
    have hkeys : oneKeys spec left right = oneKeys spec left' right' := by
      rw [oneKeys, oneKeys, hindexed]
    by_cases hone : (oneKeys spec left right).Nodup
    · have hpairs : (pairs spec left right).Perm (pairs spec left' right') := by
        rw [pairs, pairs, ← hindexed]
        exact pairsAfter_perm_of_perm hmany (manySide_perm hleft hright spec)
      exact (run_cases_of_pairs_perm hone (hkeys ▸ hone) hpairs hright.1).imp_right .inr
    · obtain ⟨labels, h⟩ := exists_firstRepeat?_eq_some hone
      exact .inr (.inl ⟨labels, by rw [run, h], by rw [run, ← hkeys, h]⟩)

/-- The samples from the last to the first. -/
def reversed (v : InstantVector) : InstantVector := ⟨v.time, v.samples.reverse⟩

/-- The numbers of the hosts for each of their processors. -/
def perProcessor : InstantVector :=
  .ofRows (.ofUnixSeconds 6)
    [([("cpu", "0"), ("dc", "oslo"), ("host", "h1")], 100),
      ([("cpu", "1"), ("dc", "oslo"), ("host", "h1")], 25)]

/-- Reversing the hosts does not change their join with the processors, and reversing
the processors reverses its result. -/
theorem joinRun_reversed :
    hosts.Rearranged (reversed hosts) ∧ processors.Rearranged (reversed processors) ∧
    hosts.joinRun processors byHost quotientAboveOne =
      (reversed hosts).joinRun processors byHost quotientAboveOne ∧
    (hosts.join processors byHost fun x y ↦ some (x / y)) = .ok perProcessor ∧
    (hosts.join (reversed processors) byHost fun x y ↦ some (x / y)) =
      .ok (reversed perProcessor) ∧
    perProcessor.Rearranged (reversed perProcessor) := by
  have hrefl (v : InstantVector) : v.Rearranged v := ⟨rfl, .refl _⟩
  have hreversed (v : InstantVector) : v.Rearranged (reversed v) :=
    ⟨rfl, (List.reverse_perm v.samples).symm⟩
  have hhosts := joinRun_rearranged (hreversed hosts) (hrefl processors) byHost
    quotientAboveOne
  have hprocessors := joinRun_rearranged (hrefl hosts) (hreversed processors) byHost
    fun x y ↦ some (x / y)
  have hjoin : (hosts.join processors byHost fun x y ↦ some (x / y)) = .ok perProcessor := by
    decide +kernel
  have hjoin' : (hosts.join (reversed processors) byHost fun x y ↦ some (x / y)) =
      .ok (reversed perProcessor) := by
    decide +kernel
  refine ⟨hreversed hosts, hreversed processors, ((hhosts.1 rfl).1 (by decide)).2, hjoin,
    hjoin', ?_⟩
  rcases hprocessors.2 rfl nofun with
    ⟨joined, joined', h, h', hjoined, -⟩ | ⟨labels, h, -⟩ | ⟨labels, -, h, -⟩
  · obtain rfl := Except.ok.inj (h.symm.trans hjoin)
    obtain rfl := Except.ok.inj (h'.symm.trans hjoin')
    exact hjoined
  · rw [InstantVector.join, h] at hjoin
    cases hjoin
  · rw [h] at hjoin
    cases hjoin

end NestedLoop

end VectorQuery
