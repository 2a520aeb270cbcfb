import VectorQuery.Proofs.Join.Index

/-!
# What comes of a join

A join fails on the first repeated key of the side that is indexed, before any
numbers are combined.  Otherwise it fails on the first result that repeats the
labels of an earlier one, or it succeeds with one result for each matched pair
that is kept.
-/

namespace VectorQuery.NestedLoop

variable (left right : InstantVector) (spec : JoinSpec) (combine : Combine)

/-! ## The three ends of a run -/

theorem oneSideName_ne_result : oneSideName spec ≠ .result := by
  rw [oneSideName]
  split <;> decide

theorem run_eq_of_nodup (hone : (oneKeys spec left right).Nodup)
    (hresult : (resultLabels spec combine (pairs spec left right)).Nodup) :
    run spec combine left right =
      ⟨calls spec (pairs spec left right),
        .ok ⟨right.time, results spec combine (pairs spec left right)⟩⟩ := by
  rw [run, firstRepeat?_nil_eq_none_iff.mpr hone]
  rcases emit_cases spec combine List.nodup_nil (pairs spec left right) with
    ⟨-, h⟩ | ⟨before, p, after, s, hsplit, -, hp, hs, -⟩
  · simp [h]
  · exact absurd (hsplit ▸ hresult) (not_nodup_of_mem hp hs)

theorem exists_run_of_key_repeated (hone : ¬ (oneKeys spec left right).Nodup) :
    ∃ before s after, oneSide spec left right = before ++ s :: after ∧
      (before.map (·.key spec.matching.filter)).Nodup ∧
      s.key spec.matching.filter ∈ before.map (·.key spec.matching.filter) ∧
      run spec combine left right =
        ⟨[], .error ⟨s.key spec.matching.filter, oneSideName spec⟩⟩ := by
  obtain ⟨labels, h⟩ := exists_firstRepeat?_eq_some hone
  obtain ⟨keys, rest, hkeys, hnodup, hmem⟩ :=
    exists_of_firstRepeat?_eq_some List.nodup_nil h
  obtain ⟨before, tail, hside, rfl, htail⟩ := List.map_eq_append_iff.mp hkeys
  obtain ⟨s, after, rfl, rfl, -⟩ := List.map_eq_cons_iff.mp htail
  exact ⟨before, s, after, hside, hnodup, hmem, by rw [run, h]⟩

theorem exists_run_of_result_repeated (hone : (oneKeys spec left right).Nodup)
    (hresult : ¬ (resultLabels spec combine (pairs spec left right)).Nodup) :
    ∃ before p after s, pairs spec left right = before ++ p :: after ∧
      (resultLabels spec combine before).Nodup ∧
      p.result? spec combine = some s ∧
      s.labels ∈ resultLabels spec combine before ∧
      run spec combine left right =
        ⟨calls spec (before ++ [p]), .error ⟨s.labels, .result⟩⟩ := by
  rw [run, firstRepeat?_nil_eq_none_iff.mpr hone]
  rcases emit_cases spec combine List.nodup_nil (pairs spec left right) with
    ⟨hnodup, -⟩ | ⟨before, p, after, s, hsplit, hnodup, hp, hs, h⟩
  · exact absurd hnodup hresult
  · exact ⟨before, p, after, s, hsplit, hnodup, hp, hs, by simp [h]⟩

/-- A join succeeds exactly if neither keys nor the labels of results are
repeated. -/
theorem run_outcome_eq_ok_iff {v : InstantVector} :
    (run spec combine left right).outcome = .ok v ↔
      (oneKeys spec left right).Nodup ∧
        (resultLabels spec combine (pairs spec left right)).Nodup ∧
        v = ⟨right.time, results spec combine (pairs spec left right)⟩ := by
  by_cases hone : (oneKeys spec left right).Nodup
  · by_cases hresult : (resultLabels spec combine (pairs spec left right)).Nodup
    · rw [run_eq_of_nodup left right spec combine hone hresult]
      simp [hone, hresult, eq_comm]
    · obtain ⟨before, p, after, s, -, -, -, -, h⟩ :=
        exists_run_of_result_repeated left right spec combine hone hresult
      simp [h, hresult]
  · obtain ⟨before, s, after, -, -, -, h⟩ :=
      exists_run_of_key_repeated left right spec combine hone
    simp [h, hone]

/-- A join fails for its results exactly if their labels are repeated, but no key. -/
theorem exists_run_outcome_eq_result_iff :
    (∃ labels, (run spec combine left right).outcome = .error ⟨labels, .result⟩) ↔
      (oneKeys spec left right).Nodup ∧
        ¬ (resultLabels spec combine (pairs spec left right)).Nodup := by
  by_cases hone : (oneKeys spec left right).Nodup
  · by_cases hresult : (resultLabels spec combine (pairs spec left right)).Nodup
    · simp [run_eq_of_nodup left right spec combine hone hresult, hresult]
    · obtain ⟨before, p, after, s, -, -, -, -, h⟩ :=
        exists_run_of_result_repeated left right spec combine hone hresult
      simp [h, hone, hresult]
  · obtain ⟨before, s, after, -, -, -, h⟩ :=
      exists_run_of_key_repeated left right spec combine hone
    simp [h, hone, oneSideName_ne_result]

/-! ## The join -/

variable {left right spec combine} in
theorem join_eq_ok_iff {v : InstantVector} :
    left.join right spec combine = .ok v ↔
      (oneKeys spec left right).Nodup ∧
        (resultLabels spec combine (pairs spec left right)).Nodup ∧
        v = ⟨right.time, results spec combine (pairs spec left right)⟩ := by
  rw [InstantVector.join, Join.joinRun_eq_run, run_outcome_eq_ok_iff]

variable {left right spec combine} in
theorem exists_join_eq_result_iff :
    (∃ labels, left.join right spec combine = .error ⟨labels, .result⟩) ↔
      (oneKeys spec left right).Nodup ∧
        ¬ (resultLabels spec combine (pairs spec left right)).Nodup := by
  rw [InstantVector.join, Join.joinRun_eq_run, exists_run_outcome_eq_result_iff]

/-- If neither keys nor the labels of results are repeated, a join succeeds.  It
combines the numbers of each matched pair once, the left one first and in the
order of the walked side, and has a result for each pair that is kept, or for
each pair with `bool`. -/
theorem joinRun_eq_of_nodup (hone : (oneKeys spec left right).Nodup)
    (hresult : (resultLabels spec combine (pairs spec left right)).Nodup) :
    left.joinRun right spec combine =
      ⟨calls spec (pairs spec left right),
        .ok ⟨right.time, results spec combine (pairs spec left right)⟩⟩ := by
  rw [Join.joinRun_eq_run]
  exact run_eq_of_nodup left right spec combine hone hresult

/-- The data centres of two hosts, with a number for each host. -/
def hosts : InstantVector :=
  .ofRows (.ofUnixSeconds 5)
    [([("host", "h1"), ("dc", "oslo")], 100), ([("host", "h2"), ("dc", "bergen")], 7)]

/-- The processors of two hosts, of which only the first is among `hosts`. -/
def processors : InstantVector :=
  .ofRows (.ofUnixSeconds 6)
    [([("host", "h1"), ("cpu", "0")], 1), ([("host", "h1"), ("cpu", "1")], 4),
      ([("host", "h3")], 9)]

/-- Matching by host, with many samples on the right, which take over the data
centre. -/
def byHost : JoinSpec := ⟨⟨.oneToMany, ["host"], true, ["dc"]⟩, false⟩

/-- The quotient, where the right number is above 1. -/
def quotientAboveOne : Combine := fun x y ↦ if 1 < y then some (x / y) else none

theorem joinRun_hosts_processors :
    (oneKeys byHost hosts processors).Nodup ∧
    (resultLabels byHost quotientAboveOne (pairs byHost hosts processors)).Nodup ∧
    hosts.joinRun processors byHost quotientAboveOne =
      ⟨[(100, 1), (100, 4)],
        .ok ⟨.ofUnixSeconds 6,
          [⟨.ofPairs [("cpu", "1"), ("dc", "oslo"), ("host", "h1")], 25⟩]⟩⟩ := by
  have hone : (oneKeys byHost hosts processors).Nodup := by decide
  have hresult :
      (resultLabels byHost quotientAboveOne (pairs byHost hosts processors)).Nodup := by
    decide
  have hcalls : calls byHost (pairs byHost hosts processors) = [(100, 1), (100, 4)] := by
    decide
  have hsamples : results byHost quotientAboveOne (pairs byHost hosts processors) =
      [⟨.ofPairs [("cpu", "1"), ("dc", "oslo"), ("host", "h1")], 25⟩] := by
    decide
  refine ⟨hone, hresult, ?_⟩
  rw [joinRun_eq_of_nodup hosts processors byHost quotientAboveOne hone hresult, hcalls,
    hsamples]
  rfl

/-- The failures of a join, in the order in which they are looked for: a key that
is repeated on the indexed side, then labels that are repeated among the results.
Each is reported where it first occurs, and the numbers combined are those of the
pairs up to there.  There is no other failure. -/
theorem joinRun_first_failure :
    (¬ (oneKeys spec left right).Nodup →
      ∃ before s after, oneSide spec left right = before ++ s :: after ∧
        (before.map (·.key spec.matching.filter)).Nodup ∧
        s.key spec.matching.filter ∈ before.map (·.key spec.matching.filter) ∧
        left.joinRun right spec combine =
          ⟨[], .error ⟨s.labels.project spec.matching.filter, oneSideName spec⟩⟩) ∧
    ((oneKeys spec left right).Nodup →
      ¬ (resultLabels spec combine (pairs spec left right)).Nodup →
      ∃ before p after s, pairs spec left right = before ++ p :: after ∧
        (resultLabels spec combine before).Nodup ∧
        p.result? spec combine = some s ∧
        s.labels ∈ resultLabels spec combine before ∧
        left.joinRun right spec combine =
          ⟨calls spec (before ++ [p]), .error ⟨s.labels, .result⟩⟩) ∧
    ((oneKeys spec left right).Nodup →
      (resultLabels spec combine (pairs spec left right)).Nodup →
      ∃ v, (left.joinRun right spec combine).outcome = .ok v) := by
  rw [Join.joinRun_eq_run]
  refine ⟨exists_run_of_key_repeated left right spec combine,
    exists_run_of_result_repeated left right spec combine, fun hone hresult ↦ ?_⟩
  exact ⟨_, (run_outcome_eq_ok_iff left right spec combine).mpr ⟨hone, hresult, rfl⟩⟩

end VectorQuery.NestedLoop
