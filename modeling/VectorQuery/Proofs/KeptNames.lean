import VectorQuery.Proofs.Aggregate.Partition
import VectorQuery.Proofs.Join.Outcome

/-!
# Filters by the names they keep

A filter is a list of names to keep or to drop, but all that a join or an
aggregation takes from it is which of the names on the samples it keeps.  Filters
that agree on these names can take each other's place: they leave the same labels
on every sample, hence the same signatures, and index, walk and gathering go the
same way.
-/

namespace VectorQuery

/-! ## Names -/

/-- The names of the labels. -/
def LabelSet.names (s : LabelSet) : List String := s.pairs.map (·.1)

/-- The names of the labels that occur on the samples. -/
def InstantVector.labelNames (v : InstantVector) : List String :=
  v.samples.flatMap (·.labels.names)

namespace LabelFilter

variable {f g : LabelFilter}

/-- The filters keep the same of some names. -/
def AgreeOn (f g : LabelFilter) (names : List String) : Prop :=
  ∀ name ∈ names, f.keeps name = g.keeps name

theorem AgreeOn.subset {names some : List String} (h : f.AgreeOn g names)
    (hsome : some ⊆ names) : f.AgreeOn g some :=
  fun name hname ↦ h name (hsome hname)

theorem AgreeOn.project_eq {s : LabelSet} (h : f.AgreeOn g s.names) :
    s.project f = s.project g := by
  refine LabelSet.eq_of_pairs_eq ?_
  rw [LabelSet.pairs_project, LabelSet.pairs_project]
  exact List.filter_congr fun p hp ↦ h p.1 (List.mem_map_of_mem hp)

/-- On the samples of a vector, filters that agree on its names leave the same
labels. -/
theorem AgreeOn.project_sample_eq {v : InstantVector} (h : f.AgreeOn g v.labelNames)
    {s : Sample} (hs : s ∈ v.samples) : s.labels.project f = s.labels.project g :=
  (h.subset fun _ hname ↦ List.mem_flatMap.mpr ⟨s, hs, hname⟩).project_eq

/-- Among the names `all`, dropping some is the same as keeping the others. -/
theorem agreeOn_filter_notMem (dropped : List String) {all names : List String}
    (hall : names ⊆ all) :
    AgreeOn ⟨dropped, false⟩ ⟨all.filter (· ∉ dropped), true⟩ names := by
  intro name hname
  simp [keeps, hall hname]

end LabelFilter

/-! ## Joins -/

namespace Join

variable {spec spec' : JoinSpec} {combine : Combine}

theorem extend_congr {f g : LabelFilter} {samples : List Sample} (index : Index)
    (h : ∀ s ∈ samples, s.labels.project f = s.labels.project g) :
    extend f index samples = extend g index samples := by
  induction samples generalizing index with
  | nil => rfl
  | cons s samples ih =>
      obtain ⟨hs, hsamples⟩ := List.forall_mem_cons.mp h
      have hsignature : s.signature f = s.signature g := LabelSet.signature_inj.mpr hs
      rw [extend, extend, hs, hsignature, ih _ hsamples]

/-- By induction on the samples: with the same labels kept of a sample, its
partner is looked up under the same signature, and the pair yields the same. -/
theorem walk_congr (hcard : spec.matching.cardinality = spec'.matching.cardinality)
    (hincluded : spec.matching.included = spec'.matching.included)
    (hbool : spec.returnBool = spec'.returnBool) {samples : List Sample}
    (h : ∀ s ∈ samples,
      s.labels.project spec.matching.filter = s.labels.project spec'.matching.filter)
    (index : Index) (emitted : Std.TreeSet Signature) :
    walk spec combine index emitted samples = walk spec' combine index emitted samples := by
  induction samples generalizing index emitted with
  | nil => rfl
  | cons s samples ih =>
      obtain ⟨hs, hsamples⟩ := List.forall_mem_cons.mp h
      have hsignature : s.signature spec.matching.filter =
        s.signature spec'.matching.filter := LabelSet.signature_inj.mpr hs
      have hconsume (key : Signature) :
          consume spec.matching index key = consume spec'.matching index key := by
        rw [consume, consume, hcard]
      have hoperands (o : Sample) :
          operands spec.matching s o = operands spec'.matching s o := by
        rw [operands, operands, hcard]
      have hlabels (o : Sample) :
          resultLabels spec.matching s o = resultLabels spec'.matching s o := by
        rw [resultLabels, resultLabels, hcard, hincluded, hs]
      have hvalue (combined : Option Float) :
          resultValue spec combined = resultValue spec' combined := by
        rw [resultValue, resultValue, hbool]
      simp only [walk, hsignature, hconsume, hoperands, hlabels, hvalue, ih hsamples]

end Join

namespace InstantVector

theorem joinRun_congr {left right : InstantVector} {spec spec' : JoinSpec}
    (hcard : spec.matching.cardinality = spec'.matching.cardinality)
    (hincluded : spec.matching.included = spec'.matching.included)
    (hbool : spec.returnBool = spec'.returnBool)
    (h : spec.matching.filter.AgreeOn spec'.matching.filter
      (left.labelNames ++ right.labelNames)) (combine : Combine) :
    left.joinRun right spec combine = left.joinRun right spec' combine := by
  have hleft (s : Sample) (hs : s ∈ left.samples) :=
    (h.subset (List.subset_append_left _ _)).project_sample_eq hs
  have hright (s : Sample) (hs : s ∈ right.samples) :=
    (h.subset (List.subset_append_right _ _)).project_sample_eq hs
  simp only [joinRun, Join.run, ← hcard, Join.extend_congr ∅ hleft, Join.extend_congr ∅ hright,
    Join.walk_congr hcard hincluded hbool hleft, Join.walk_congr hcard hincluded hbool hright]

/-! ## Aggregations -/

theorem groups_congr {v : InstantVector} {f g : LabelFilter} (h : f.AgreeOn g v.labelNames) :
    v.groups f = v.groups g := by
  rw [groups, groups, gather, gather, List.foldl_ext]
  intro gathering s hs
  rw [h.project_sample_eq hs]

theorem aggregateRun_congr {v : InstantVector} {g g' : Grouping} (hg : g.isUngrouped = false)
    (hg' : g'.isUngrouped = false) (h : g.filter.AgreeOn g'.filter v.labelNames)
    (reduce : List Float → Float) :
    v.aggregateRun g reduce = v.aggregateRun g' reduce := by
  rw [aggregateRun, aggregateRun, hg, hg', groups_congr h]

/-- A join, with the numbers it combines, and an aggregation, with the lists it
reduces, are the same for filters that keep the same of the names that occur.  So
it is the same to ignore some names or to match on all others of a list that has
the names that occur, and to group without some names or by all others, as long
as there are others. -/
theorem outcomes_eq_of_agreeOn (left right v : InstantVector) (combine : Combine)
    (reduce : List Float → Float) :
    (∀ spec spec' : JoinSpec, spec.matching.cardinality = spec'.matching.cardinality →
      spec.matching.included = spec'.matching.included →
      spec.returnBool = spec'.returnBool →
      spec.matching.filter.AgreeOn spec'.matching.filter
        (left.labelNames ++ right.labelNames) →
      left.joinRun right spec combine = left.joinRun right spec' combine) ∧
    (∀ g g' : Grouping, g.isUngrouped = false → g'.isUngrouped = false →
      g.filter.AgreeOn g'.filter v.labelNames →
      v.aggregateRun g reduce = v.aggregateRun g' reduce) ∧
    (∀ (m : Matching) (returnBool : Bool) (dropped all : List String),
      left.labelNames ++ right.labelNames ⊆ all →
      left.joinRun right ⟨{ m with labels := dropped, on := false }, returnBool⟩ combine =
        left.joinRun right
          ⟨{ m with labels := all.filter (· ∉ dropped), on := true }, returnBool⟩ combine) ∧
    ∀ dropped all : List String, v.labelNames ⊆ all → all.filter (· ∉ dropped) ≠ [] →
      v.aggregateRun ⟨dropped, true⟩ reduce =
        v.aggregateRun ⟨all.filter (· ∉ dropped), false⟩ reduce := by
  refine ⟨fun spec spec' hcard hincluded hbool h ↦ joinRun_congr hcard hincluded hbool h combine,
    fun g g' hg hg' h ↦ aggregateRun_congr hg hg' h reduce,
    fun m returnBool dropped all hall ↦ ?_, fun dropped all hall hothers ↦ ?_⟩
  · refine joinRun_congr ?_ ?_ ?_ ?_ combine
    · rfl
    · rfl
    · rfl
    · exact LabelFilter.agreeOn_filter_notMem dropped hall
  · have hwithout : Grouping.isUngrouped ⟨dropped, true⟩ = false :=
      isUngrouped_eq_false_iff.mpr (.inr rfl)
    have hby : Grouping.isUngrouped ⟨all.filter (· ∉ dropped), false⟩ = false :=
      isUngrouped_eq_false_iff.mpr (.inl hothers)
    exact aggregateRun_congr hwithout hby (LabelFilter.agreeOn_filter_notMem dropped hall) reduce

/-- Ignoring the processor and the data centre is matching by host, also with a
name twice in the list, and grouping without the status is grouping by host. -/
theorem outcomes_eq_byHost :
    NestedLoop.hosts.joinRun NestedLoop.processors
        ⟨⟨.oneToMany, ["dc", "cpu", "dc"], false, ["dc"]⟩, false⟩
        NestedLoop.quotientAboveOne =
      NestedLoop.hosts.joinRun NestedLoop.processors NestedLoop.byHost
        NestedLoop.quotientAboveOne ∧
    NestedLoop.hosts.joinRun NestedLoop.processors
        ⟨⟨.oneToMany, ["dc", "cpu"], false, ["dc"]⟩, false⟩ NestedLoop.quotientAboveOne =
      NestedLoop.hosts.joinRun NestedLoop.processors NestedLoop.byHost
        NestedLoop.quotientAboveOne ∧
    requests.aggregateRun ⟨["status", "zone"], true⟩ AggregationOp.sum.reduce =
      requests.aggregateRun ⟨["host", "job"], false⟩ AggregationOp.sum.reduce ∧
    requests.aggregateRun ⟨["status"], true⟩ AggregationOp.sum.reduce =
      requests.aggregateRun ⟨["host"], false⟩ AggregationOp.sum.reduce := by
  obtain ⟨hjoin, haggregate, hignoring, hwithout⟩ := outcomes_eq_of_agreeOn
    NestedLoop.hosts NestedLoop.processors requests NestedLoop.quotientAboveOne
    AggregationOp.sum.reduce
  refine ⟨hjoin _ _ rfl rfl rfl ?_, ?_, haggregate _ _ rfl rfl ?_, ?_⟩
  · unfold LabelFilter.AgreeOn
    decide
  · exact hignoring ⟨.oneToMany, [], false, ["dc"]⟩ false ["dc", "cpu"] ["cpu", "host", "dc"]
      (by decide)
  · unfold LabelFilter.AgreeOn
    decide
  · exact hwithout ["status"] ["host", "status"] (by decide) (by decide)

end InstantVector

end VectorQuery
