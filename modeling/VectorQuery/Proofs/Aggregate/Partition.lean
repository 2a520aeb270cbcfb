import Mathlib.Algebra.Ring.Nat
import VectorQuery.Operator.Aggregation
import VectorQuery.Proofs.Aggregate

/-!
# Aggregation as a partition

What an aggregation reduces, and what it makes of it.  With a grouping, there is
one reduction for each label set that the filter leaves on the samples, in the
order of first appearance, and the groups that are reduced share out the samples
among them.  Without one, there is one reduction, of all numbers.
-/

namespace VectorQuery

/-! ## Sharing out the samples -/

/-- Gathering the elements of a list by keys loses none and doubles none. -/
theorem perm_flatten_filter {α κ : Type} [DecidableEq κ] {keys : List κ} (hkeys : keys.Nodup)
    (key : α → κ) (xs : List α) :
    (keys.map fun k ↦ xs.filter (key · = k)).flatten.Perm (xs.filter (key · ∈ keys)) := by
  induction keys with
  | nil => simp
  | cons k keys ih =>
      obtain ⟨hk, hkeys⟩ := List.nodup_cons.mp hkeys
      have hfirst : (xs.filter (key · ∈ k :: keys)).filter (key · = k) =
          xs.filter (key · = k) := by
        rw [List.filter_filter]
        exact List.filter_congr fun x _ ↦ by by_cases h : key x = k <;> simp [h]
      have hrest : (xs.filter (key · ∈ k :: keys)).filter (fun x ↦ !decide (key x = k)) =
          xs.filter (key · ∈ keys) := by
        rw [List.filter_filter]
        refine List.filter_congr fun x _ ↦ ?_
        by_cases h : key x = k
        · simp [h, hk]
        · simp [h]
      rw [List.map_cons, List.flatten_cons]
      have hsplit := List.filter_append_perm (key · = k) (xs.filter (key · ∈ k :: keys))
      rw [hfirst, hrest] at hsplit
      exact ((ih hkeys).append_left _).trans hsplit

namespace Group

variable (f : LabelFilter) (samples : List Sample)

/-- Each sample belongs to one group and no other. -/
theorem existsUnique_mem_members {s : Sample} (hs : s ∈ samples) :
    ∃! labels, labels ∈ keys f samples ∧ s ∈ members f samples labels := by
  refine ⟨s.labels.project f, ⟨mem_keys.mpr ⟨s, hs, rfl⟩, mem_members.mpr ⟨hs, rfl⟩⟩, ?_⟩
  rintro labels ⟨-, hmem⟩
  exact (mem_members.mp hmem).2.symm

/-- The groups together have each sample as often as it is given. -/
theorem perm_flatten_members :
    ((keys f samples).map (members f samples)).flatten.Perm samples := by
  have hall : samples.filter (·.labels.project f ∈ keys f samples) = samples := by
    refine List.filter_eq_self.mpr fun s hs ↦ ?_
    exact decide_eq_true (mem_keys.mpr ⟨s, hs, rfl⟩)
  have hperm := perm_flatten_filter (nodup_keys f samples) (·.labels.project f) samples
  rwa [hall] at hperm

/-- The groups together have the numbers of the samples. -/
theorem perm_flatten_numbers :
    ((keys f samples).map (numbers f samples)).flatten.Perm (samples.map (·.value)) := by
  have hperm := (perm_flatten_members f samples).map (·.value)
  rwa [List.map_flatten, List.map_map] at hperm

theorem numbers_ne_nil {labels : LabelSet} (h : labels ∈ keys f samples) :
    numbers f samples labels ≠ [] := by
  obtain ⟨s, hs, hlabels⟩ := mem_keys.mp h
  exact List.ne_nil_of_mem (List.mem_map_of_mem (mem_members.mpr ⟨hs, hlabels⟩))

theorem sum_length_numbers :
    ((keys f samples).map fun labels ↦ (numbers f samples labels).length).sum =
      samples.length := by
  have hlength := (perm_flatten_numbers f samples).length_eq
  rwa [List.length_flatten, List.map_map, List.length_map] at hlength

end Group

namespace InstantVector

open VectorQuery.Group

/-! ## What is reduced -/

theorem isUngrouped_eq_false_iff {g : Grouping} :
    g.isUngrouped = false ↔ g.labels ≠ [] ∨ g.without = true := by
  cases hlabels : g.labels <;> simp [Grouping.isUngrouped, hlabels]

theorem aggregateRun_eq_map_numbers (v : InstantVector) {g : Grouping}
    (hg : g.isUngrouped = false) (reduce : List Float → Float) :
    v.aggregateRun g reduce =
      ⟨(keys g.filter v.samples).map (numbers g.filter v.samples),
        .vector ⟨v.time, (keys g.filter v.samples).map fun labels ↦
          ⟨labels, reduce (numbers g.filter v.samples labels)⟩⟩⟩ := by
  rw [aggregateRun_eq, hg, groups_eq_ofSamples, ofSamples, List.map_map, List.map_map]
  rfl

theorem aggregate_eq_map_numbers (v : InstantVector) {g : Grouping}
    (hg : g.isUngrouped = false) (reduce : List Float → Float) :
    v.aggregate g reduce = .vector ⟨v.time, (keys g.filter v.samples).map fun labels ↦
      ⟨labels, reduce (numbers g.filter v.samples labels)⟩⟩ :=
  congrArg AggregateRun.outcome (v.aggregateRun_eq_map_numbers hg reduce)

/-- An aggregation with a grouping has one reduction for each label set that is
left on the samples, in the order in which these first appear, of the numbers of
the samples with that label set, in their order.  The samples are shared out to
the groups: each is in one of them, none is lost or doubled, and no group is
empty.  Without a grouping, all numbers are reduced at once. -/
theorem aggregate_partition (v : InstantVector) (g : Grouping) (reduce : List Float → Float) :
    (g.labels ≠ [] ∨ g.without = true →
      v.aggregate g reduce = .vector ⟨v.time, (keys g.filter v.samples).map fun labels ↦
        ⟨labels, reduce ((members g.filter v.samples labels).map (·.value))⟩⟩ ∧
      (v.aggregateRun g reduce).calls = (keys g.filter v.samples).map (fun labels ↦
        (members g.filter v.samples labels).map (·.value)) ∧
      (∀ labels, labels ∈ keys g.filter v.samples ↔
        ∃ s ∈ v.samples, s.labels.project g.filter = labels) ∧
      (keys g.filter v.samples).Nodup ∧
      (keys g.filter v.samples).Pairwise (fun earlier later ↦
        (v.project g.filter).labelSets.idxOf earlier <
          (v.project g.filter).labelSets.idxOf later) ∧
      (∀ s ∈ v.samples, ∃! labels,
        labels ∈ keys g.filter v.samples ∧ s ∈ members g.filter v.samples labels) ∧
      ((keys g.filter v.samples).map (members g.filter v.samples)).flatten.Perm
        v.samples ∧
      (v.aggregateRun g reduce).calls.flatten.Perm v.values ∧
      (∀ numbers ∈ (v.aggregateRun g reduce).calls, numbers ≠ []) ∧
      ((v.aggregateRun g reduce).calls.map (·.length)).sum = v.size) ∧
    (g.labels = [] ∧ g.without = false →
      (v.aggregateRun g reduce).calls = [v.values] ∧
        v.aggregate g reduce = .scalar (reduce v.values)) := by
  constructor
  · intro hg
    have hgrouped := isUngrouped_eq_false_iff.mpr hg
    have hcalls := congrArg AggregateRun.calls (v.aggregateRun_eq_map_numbers hgrouped reduce)
    have horder := pairwise_idxOf_eraseDups (v.samples.map (·.labels.project g.filter))
    have hprojections : (v.project g.filter).labelSets =
        v.samples.map (·.labels.project g.filter) := by
      simp [InstantVector.labelSets, project, Sample.project]
    refine ⟨v.aggregate_eq_map_numbers hgrouped reduce, hcalls,
      fun labels ↦ mem_keys, nodup_keys _ _, hprojections ▸ horder,
      fun s ↦ existsUnique_mem_members g.filter v.samples,
      perm_flatten_members g.filter v.samples, ?_, ?_, ?_⟩
    · rw [hcalls]
      exact perm_flatten_numbers g.filter v.samples
    · rw [hcalls]
      intro values hvalues
      obtain ⟨labels, hlabels, rfl⟩ := List.mem_map.mp hvalues
      exact numbers_ne_nil g.filter v.samples hlabels
    · rw [hcalls, List.map_map]
      exact sum_length_numbers g.filter v.samples
  · rintro ⟨hlabels, hwithout⟩
    have hungrouped : g.isUngrouped = true := by
      simp [Grouping.isUngrouped, hlabels, hwithout]
    rw [aggregate, aggregateRun_eq, if_pos hungrouped]
    exact ⟨rfl, rfl⟩

/-- Requests by host and status; the host of the last sample is the first one's. -/
def requests : InstantVector :=
  .ofRows (.ofUnixSeconds 5)
    [([("host", "h1"), ("status", "200")], 5), ([("host", "h2"), ("status", "200")], 7),
      ([("host", "h1"), ("status", "500")], 1)]

theorem aggregate_requests :
    (requests.aggregateRun ⟨["status"], true⟩ AggregationOp.sum.reduce).calls =
      [[5, 1], [7]] ∧
    requests.aggregate ⟨["status"], true⟩ AggregationOp.sum.reduce =
      .vector (.ofRows (.ofUnixSeconds 5) [([("host", "h1")], 6), ([("host", "h2")], 7)]) ∧
    requests.aggregate {} AggregationOp.sum.reduce = .scalar 13 := by
  have hgrouped := (aggregate_partition requests ⟨["status"], true⟩ AggregationOp.sum.reduce).1
    (.inr rfl)
  have hungrouped := (aggregate_partition requests {} AggregationOp.sum.reduce).2 ⟨rfl, rfl⟩
  refine ⟨?_, ?_, ?_⟩
  · rw [hgrouped.2.1]
    decide +kernel
  · rw [hgrouped.1]
    decide +kernel
  · rw [hungrouped.2]
    decide +kernel

end InstantVector

end VectorQuery
