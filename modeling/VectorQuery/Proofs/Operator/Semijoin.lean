import VectorQuery.Proofs.Join.Outcome
import VectorQuery.Proofs.Join.Pairs
import VectorQuery.Proofs.Operator.SetLaws

/-!
# Intersection as a join

If labels are not repeated, the samples that an intersection keeps are those for which
the join on all labels finds a partner, and a difference keeps those for which it finds
none.  The intersection looks up signatures in a set; the join takes each partner away
from its index and watches its results.  Neither makes a difference where labels are
the samples' own.
-/

namespace VectorQuery

/-- Combines two numbers to the left one, and keeps each pair. -/
def keepLeft : Combine := fun x _ ↦ some x

/-- The number of a sample, with that of each sample of the vector that has the same
labels. -/
def InstantVector.partnersOf (b : InstantVector) (s : Sample) : List (Float × Float) :=
  (b.samples.filter (·.labels = s.labels)).map fun o ↦ (s.value, o.value)

namespace NestedLoop

variable {a b : InstantVector}

theorem key_default (s : Sample) : s.key ({} : Matching).filter = s.labels :=
  s.labels.project_all

theorem oneKeys_default (a b : InstantVector) : oneKeys {} a b = b.labelSets :=
  List.map_congr_left fun s _ ↦ key_default s

/-- Without modifiers, samples are paired by all of their labels. -/
theorem pairs_default (ha : a.labelSets.Nodup) :
    pairs {} a b = a.samples.flatMap fun s ↦
      (b.samples.filter (·.labels = s.labels)).map (⟨s, ·⟩) := by
  have hkeys : (a.samples.map (·.key ({} : Matching).filter)).Nodup := by
    simpa only [key_default, InstantVector.labelSets] using ha
  have hmatches (s o : Sample) : Matches {} [] s o ↔ o.labels = s.labels := by
    rw [Join.matches_nil_iff, key_default, key_default, eq_comm]
  rw [pairs, pairsAfter_eq_flatMap fun _ ↦ hkeys]
  simp only [hmatches]
  rfl

theorem result?_default (s o : Sample) : Pair.result? {} keepLeft ⟨s, o⟩ = some s := by
  rw [Pair.result?, Pair.labels_of_oneToOne rfl, key_default]
  rfl

theorem calls_default (ha : a.labelSets.Nodup) :
    calls {} (pairs {} a b) = a.samples.flatMap b.partnersOf := by
  rw [calls, pairs_default ha, List.map_flatMap]
  refine List.flatMap_congr fun s _ ↦ ?_
  rw [List.map_map]
  rfl

/-- A sample is a result once if some labels of the other side are its own. -/
theorem filter_labels_map_const (hb : b.labelSets.Nodup) (s : Sample) :
    ((b.samples.filter (·.labels = s.labels)).map fun _ ↦ s) =
      if s.labels ∈ b.labelSets then [s] else [] := by
  have hlength : (b.samples.filter (·.labels = s.labels)).length =
      b.labelSets.count s.labels := by
    rw [InstantVector.labelSets, List.count_eq_countP, List.countP_map,
      List.countP_eq_length_filter]
    rfl
  rw [List.map_const', hlength]
  split
  · rename_i hs
    rw [List.count_eq_one_of_mem hb hs, List.replicate_one]
  · rename_i hs
    rw [List.count_eq_zero_of_not_mem hs, List.replicate_zero]

theorem results_default (ha : a.labelSets.Nodup) (hb : b.labelSets.Nodup) :
    results {} keepLeft (pairs {} a b) = (SetOp.and.apply a b).samples := by
  rw [results, pairs_default ha, SetOp.apply_and, List.filterMap_flatMap]
  simp only [List.filterMap_map, Function.comp_def, result?_default, List.filterMap_eq_map',
    filter_labels_map_const hb]
  induction a.samples with
  | nil => rfl
  | cons s samples ih =>
      rw [List.flatMap_cons, ih, List.filter_cons]
      by_cases hs : s.labels ∈ b.labelSets <;> simp [hs]

theorem joinRun_keepLeft (ha : a.labelSets.Nodup) (hb : b.labelSets.Nodup) :
    a.joinRun b {} keepLeft =
      ⟨a.samples.flatMap b.partnersOf, .ok ⟨b.time, (SetOp.and.apply a b).samples⟩⟩ := by
  have hone : (oneKeys {} a b).Nodup := by rwa [oneKeys_default]
  have hresult : (resultLabels {} keepLeft (pairs {} a b)).Nodup := by
    rw [resultLabels, results_default ha hb]
    exact SetOp.nodup_labelSets_apply .and b ha
  rw [Join.joinRun_eq_run, run_eq_of_nodup _ _ _ _ hone hresult, calls_default ha,
    results_default ha hb]

end NestedLoop

namespace SetOp

variable {a b : InstantVector}

theorem partnersOf_eq_nil_iff {s : Sample} : b.partnersOf s = [] ↔ s.labels ∉ b.labelSets := by
  simp [InstantVector.partnersOf, InstantVector.labelSets]

/-- If no labels are repeated on either side, the join of two vectors without modifiers
succeeds, and its samples are those of the intersection if the left numbers are kept.
What it combines when it comes to a sample are the numbers of the sample's partners,
and the samples of the difference are those at which nothing is combined. -/
theorem joinRun_keepLeft_and_unless (ha : a.labelSets.Nodup) (hb : b.labelSets.Nodup) :
    a.joinRun b {} keepLeft =
      ⟨a.samples.flatMap b.partnersOf, .ok ⟨b.time, (SetOp.and.apply a b).samples⟩⟩ ∧
    (SetOp.unless.apply a b).samples = a.samples.filter (b.partnersOf · = []) ∧
    ∀ before s after, a.samples = before ++ s :: after →
      (InstantVector.joinRun ⟨a.time, before ++ [s]⟩ b {} keepLeft).calls =
        (InstantVector.joinRun ⟨a.time, before⟩ b {} keepLeft).calls ++ b.partnersOf s := by
  refine ⟨NestedLoop.joinRun_keepLeft ha hb, ?_, fun before s after hsplit ↦ ?_⟩
  · simp only [apply_unless, partnersOf_eq_nil_iff]
  · have hfront {front rest : List Sample} (h : a.samples = front ++ rest) :
        (InstantVector.labelSets ⟨a.time, front⟩).Nodup := by
      rw [InstantVector.labelSets, h, List.map_append] at ha
      exact ha.of_append_left
    have hwith : a.samples = (before ++ [s]) ++ after := by
      rw [hsplit, List.append_cons]
    rw [NestedLoop.joinRun_keepLeft (hfront hwith) hb,
      NestedLoop.joinRun_keepLeft (hfront hsplit) hb, List.flatMap_append,
      List.flatMap_singleton]

/-- Two hosts that take no more requests, of which the first is among the hosts. -/
def drained : InstantVector :=
  .ofRows (.ofUnixSeconds 6)
    [([("host", "h2"), ("dc", "bergen")], 1), ([("host", "h3"), ("dc", "oslo")], 1)]

theorem joinRun_hosts_drained :
    NestedLoop.hosts.labelSets.Nodup ∧ drained.labelSets.Nodup ∧
    NestedLoop.hosts.joinRun drained {} keepLeft = ⟨[(7, 1)], .ok
      (.ofRows (.ofUnixSeconds 6) [([("host", "h2"), ("dc", "bergen")], 7)])⟩ ∧
    (SetOp.unless.apply NestedLoop.hosts drained).samples =
      [⟨.ofPairs [("host", "h1"), ("dc", "oslo")], 100⟩] := by
  have hhosts : NestedLoop.hosts.labelSets.Nodup := by decide
  have hdrained : drained.labelSets.Nodup := by decide
  obtain ⟨hrun, hunless, -⟩ := joinRun_keepLeft_and_unless hhosts hdrained
  have hcalls : NestedLoop.hosts.samples.flatMap drained.partnersOf = [(7, 1)] := by
    decide +kernel
  have hand : (SetOp.and.apply NestedLoop.hosts drained).samples =
      [⟨.ofPairs [("host", "h2"), ("dc", "bergen")], 7⟩] := by
    decide +kernel
  have hothers : NestedLoop.hosts.samples.filter (drained.partnersOf · = []) =
      [⟨.ofPairs [("host", "h1"), ("dc", "oslo")], 100⟩] := by
    decide +kernel
  refine ⟨hhosts, hdrained, ?_, hunless.trans hothers⟩
  rw [hrun, hcalls, hand]
  rfl

end SetOp

end VectorQuery
