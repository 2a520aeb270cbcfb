import VectorQuery.Proofs.Aggregate.Partition

/-!
# Aggregation in two steps

A vector can be aggregated by some labels first, and what comes of it by fewer: the
result is that of aggregating by the fewer labels at once.  Each coarse group consists
of fine ones, which appear in the order of their first samples; its numbers are those of
the fine groups, but not in the same order, since the fine groups may be interleaved in
the vector.  The reduction must therefore not depend on the order of the numbers, and be
applicable to parts of them first.
-/

namespace VectorQuery

/-- The reduction of some numbers does not depend on their order, and can be found by
reducing the reductions of their parts. -/
structure RollsUp (reduce : List Float → Float) : Prop where
  perm {xs ys : List Float} (hxs : xs ≠ []) (h : xs.Perm ys) : reduce xs = reduce ys
  flatten {parts : List (List Float)} (hparts : parts ≠ []) (h : ∀ xs ∈ parts, xs ≠ []) :
    reduce (parts.map reduce) = reduce parts.flatten

/-- First occurrences of images are found among the images of first occurrences. -/
theorem eraseDups_map_eraseDups {α β : Type} [DecidableEq α] [DecidableEq β] (f : α → β)
    (xs : List α) : (xs.eraseDups.map f).eraseDups = (xs.map f).eraseDups := by
  induction xs using List.reverseRecOn with
  | nil => rfl
  | append_singleton xs x ih =>
      rw [eraseDups_concat, List.map_append, List.map_singleton, eraseDups_concat]
      split
      · rename_i hx
        rw [if_pos (List.mem_map_of_mem hx), ih]
      · simp only [List.map_append, List.map_singleton, eraseDups_concat, ih, List.mem_map,
          List.mem_eraseDups]

/-- A filter can be applied after another one that keeps all that it keeps. -/
theorem LabelSet.project_project {fine coarse : LabelFilter}
    (h : ∀ name, coarse.keeps name = true → fine.keeps name = true) (s : LabelSet) :
    (s.project fine).project coarse = s.project coarse := by
  ext n : 1
  rw [get?_project, get?_project, get?_project]
  split
  · rename_i hn
    rw [if_pos (h n hn)]
  · rfl

namespace Group

variable {fine coarse : LabelFilter}

/-- The samples that the fine groups are reduced to. -/
def reduced (fine : LabelFilter) (samples : List Sample) (reduce : List Float → Float) :
    List Sample :=
  (keys fine samples).map fun labels ↦ ⟨labels, reduce (numbers fine samples labels)⟩

/-- The coarse groups come in the same order, whether they are formed of the samples or
of the fine groups. -/
theorem keys_reduced (h : ∀ name, coarse.keeps name = true → fine.keeps name = true)
    (samples : List Sample) (reduce : List Float → Float) :
    keys coarse (reduced fine samples reduce) = keys coarse samples := by
  have hproject : ((reduced fine samples reduce).map (·.labels.project coarse)) =
      (keys fine samples).map (·.project coarse) := by
    rw [reduced, List.map_map]
    rfl
  rw [keys, hproject, keys, eraseDups_map_eraseDups, List.map_map, keys]
  simp only [Function.comp_def, LabelSet.project_project h]

/-- The fine groups that go into a coarse one. -/
def parts (fine coarse : LabelFilter) (samples : List Sample) (labels : LabelSet) :
    List LabelSet :=
  (keys fine samples).filter (·.project coarse = labels)

theorem numbers_reduced (samples : List Sample) (reduce : List Float → Float)
    (labels : LabelSet) :
    numbers coarse (reduced fine samples reduce) labels =
      ((parts fine coarse samples labels).map (numbers fine samples)).map reduce := by
  rw [numbers, members, reduced, List.filter_map, List.map_map, List.map_map]
  rfl

/-- A coarse group has the numbers of its parts. -/
theorem perm_flatten_parts (h : ∀ name, coarse.keeps name = true → fine.keeps name = true)
    (samples : List Sample) (labels : LabelSet) :
    ((parts fine coarse samples labels).map (numbers fine samples)).flatten.Perm
      (numbers coarse samples labels) := by
  have hmembers : samples.filter (·.labels.project fine ∈ parts fine coarse samples labels) =
      members coarse samples labels := by
    refine List.filter_congr fun s hs ↦ decide_eq_decide.mpr ?_
    rw [parts, List.mem_filter, decide_eq_true_iff, LabelSet.project_project h]
    exact and_iff_right (mem_keys.mpr ⟨s, hs, rfl⟩)
  have hnodup : (parts fine coarse samples labels).Nodup := (nodup_keys fine samples).filter _
  have hparts := perm_flatten_filter hnodup (·.labels.project fine) samples
  rw [hmembers] at hparts
  have hnumbers := hparts.map (·.value)
  rwa [List.map_flatten, List.map_map] at hnumbers

theorem parts_ne_nil (h : ∀ name, coarse.keeps name = true → fine.keeps name = true)
    {samples : List Sample} {labels : LabelSet} (hlabels : labels ∈ keys coarse samples) :
    parts fine coarse samples labels ≠ [] := by
  obtain ⟨s, hs, rfl⟩ := mem_keys.mp hlabels
  refine List.ne_nil_of_mem (List.mem_filter.mpr ⟨mem_keys.mpr ⟨s, hs, rfl⟩, ?_⟩)
  exact decide_eq_true (LabelSet.project_project h s.labels)

/-- The numbers of a coarse group are reduced to the same, all at once or part by part. -/
theorem reduce_numbers_reduced {reduce : List Float → Float} (hreduce : RollsUp reduce)
    (h : ∀ name, coarse.keeps name = true → fine.keeps name = true)
    {samples : List Sample} {labels : LabelSet} (hlabels : labels ∈ keys coarse samples) :
    reduce (numbers coarse (reduced fine samples reduce) labels) =
      reduce (numbers coarse samples labels) := by
  have hperm := perm_flatten_parts h samples labels
  have hparts : (parts fine coarse samples labels).map (numbers fine samples) ≠ [] :=
    List.map_eq_nil_iff.not.mpr (parts_ne_nil h hlabels)
  have hnumbers (xs : List Float)
      (hxs : xs ∈ (parts fine coarse samples labels).map (numbers fine samples)) : xs ≠ [] := by
    obtain ⟨part, hpart, rfl⟩ := List.mem_map.mp hxs
    exact numbers_ne_nil fine samples (List.mem_of_mem_filter hpart)
  rw [numbers_reduced, hreduce.flatten hparts hnumbers]
  refine hreduce.perm (fun hnil ↦ ?_) hperm
  rw [hnil] at hperm
  exact numbers_ne_nil coarse samples hlabels (List.nil_perm.mp hperm)

end Group

namespace InstantVector

/-- Aggregating by some labels, and the result by fewer labels, is aggregating by the
fewer labels: the vector has the same time, the same label sets in the same order, and
the same numbers. -/
theorem aggregate_rollUp (v : InstantVector) {fine coarse : Grouping}
    (hfine : fine.isUngrouped = false) (hcoarse : coarse.isUngrouped = false)
    (hkeeps : ∀ name, coarse.filter.keeps name = true → fine.filter.keeps name = true)
    {reduce : List Float → Float} (hreduce : RollsUp reduce) :
    ∃ w u, v.aggregate fine reduce = .vector w ∧ w.aggregate coarse reduce = .vector u ∧
      v.aggregate coarse reduce = .vector u := by
  refine ⟨_, _, aggregate_eq_map_numbers v hfine reduce,
    aggregate_eq_map_numbers _ hcoarse reduce, ?_⟩
  rw [aggregate_eq_map_numbers v hcoarse reduce]
  have hkeys := Group.keys_reduced hkeeps v.samples reduce
  rw [Group.reduced] at hkeys
  rw [hkeys]
  congr 2
  refine List.map_congr_left fun labels hlabels ↦ ?_
  rw [← Group.reduce_numbers_reduced hreduce hkeeps hlabels, Group.reduced]

/-- 1 if some number is positive, else 0. -/
def anyPositive (xs : List Float) : Float := if xs.any (0 < ·) then 1 else 0

theorem positive_anyPositive_iff (xs : List Float) : 0 < anyPositive xs ↔ xs.any (0 < ·) := by
  rw [anyPositive]
  split
  · rename_i h
    exact iff_of_true (by decide +kernel) h
  · rename_i h
    exact iff_of_false (by decide +kernel) h

theorem rollsUp_anyPositive : RollsUp anyPositive where
  perm _ h := by
    rw [anyPositive, anyPositive, h.any_eq]
  flatten _ _ := by
    have hany (xs : List Float) : decide (0 < anyPositive xs) = xs.any (0 < ·) :=
      Bool.eq_iff_iff.mpr (decide_eq_true_iff.trans (positive_anyPositive_iff xs))
    rw [anyPositive, anyPositive, List.any_map, List.any_flatten]
    simp only [Function.comp_def, hany]

/-- Failures by host and processor; those of the first host stand around the second's. -/
def failures : InstantVector :=
  .ofRows (.ofUnixSeconds 5)
    [([("host", "h1"), ("cpu", "0"), ("zone", "a")], 0),
      ([("host", "h2"), ("cpu", "0"), ("zone", "a")], 0),
      ([("host", "h1"), ("cpu", "1"), ("zone", "b")], 3)]

theorem aggregate_failures :
    (∀ name, LabelFilter.keeps (Grouping.filter ⟨["host"], false⟩) name = true →
      LabelFilter.keeps (Grouping.filter ⟨["zone"], true⟩) name = true) ∧
    RollsUp anyPositive ∧
    ∃ w, failures.aggregate ⟨["zone"], true⟩ anyPositive = .vector w ∧
      w.aggregate ⟨["host"], false⟩ anyPositive =
        .vector (.ofRows (.ofUnixSeconds 5) [([("host", "h1")], 1), ([("host", "h2")], 0)]) := by
  have hkeeps (name : String)
      (h : LabelFilter.keeps (Grouping.filter ⟨["host"], false⟩) name = true) :
      LabelFilter.keeps (Grouping.filter ⟨["zone"], true⟩) name = true := by
    obtain rfl : name = "host" := by simpa [LabelFilter.keeps, Grouping.filter] using h
    decide
  have hfine : Grouping.isUngrouped ⟨["zone"], true⟩ = false := rfl
  obtain ⟨w, u, hw, hu, hdirect⟩ :=
    aggregate_rollUp failures hfine rfl hkeeps rollsUp_anyPositive
  refine ⟨hkeeps, rollsUp_anyPositive, ?_⟩
  refine ⟨w, hw, ?_⟩
  rw [hu, ← hdirect]
  decide +kernel

end InstantVector

end VectorQuery
