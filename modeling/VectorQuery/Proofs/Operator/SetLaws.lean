import VectorQuery.Proofs.Aggregate
import VectorQuery.Proofs.Operator.Set

/-!
# Laws of the set operators

Intersection and difference split a vector in two and keep repeated labels; a union
keeps the first sample of each label set, within a vector as well as across both.  The
laws of the union come from how `firstsAfter` goes through a list: it can be taken up
again behind any part of the list, and nothing changes if what it would leave out anyway
is left out before.
-/

namespace VectorQuery.SetOp

variable {done done' : List LabelSet} {a b : InstantVector}

/-! ## First samples -/

theorem firstsAfter_congr (h : ∀ labels, labels ∈ done ↔ labels ∈ done')
    (samples : List Sample) : firstsAfter done samples = firstsAfter done' samples := by
  induction samples generalizing done done' with
  | nil => rfl
  | cons s samples ih =>
      have hnext (labels : LabelSet) :
          labels ∈ done ++ [s.labels] ↔ labels ∈ done' ++ [s.labels] := by
        rw [List.mem_append, List.mem_append, h]
      rw [firstsAfter, firstsAfter, ih h, ih hnext]
      simp only [h]

/-- Behind the front of a list, its labels have been seen. -/
theorem firstsAfter_append (done : List LabelSet) (front samples : List Sample) :
    firstsAfter done (front ++ samples) =
      firstsAfter done front ++ firstsAfter (done ++ front.map (·.labels)) samples := by
  induction front generalizing done with
  | nil => simp [firstsAfter]
  | cons s front ih =>
      rw [List.cons_append, firstsAfter, firstsAfter, List.map_cons]
      split
      · -- the labels of `s` are among `done` already, and counted in once more
        rename_i hs
        rw [ih]
        congr 1
        refine firstsAfter_congr (fun labels ↦ ?_) samples
        simp only [List.mem_append, List.mem_cons]
        constructor
        · exact fun h ↦ h.imp_right .inr
        · rintro (h | rfl | h)
          · exact .inl h
          · exact .inl hs
          · exact .inr h
      · rw [ih, List.cons_append, List.append_assoc, List.singleton_append]

/-- What is left out of first samples is left out all the same, if no fewer labels have
been seen by then. -/
theorem firstsAfter_firstsAfter (h : done' ⊆ done) (samples : List Sample) :
    firstsAfter done (firstsAfter done' samples) = firstsAfter done samples := by
  induction samples generalizing done done' with
  | nil => rfl
  | cons s samples ih =>
      rw [firstsAfter]
      split
      · rename_i hs
        rw [ih h, firstsAfter, if_pos (h hs)]
      · rw [firstsAfter, firstsAfter]
        split
        · rename_i hs
          refine ih (List.append_subset.mpr ⟨h, fun labels hlabels ↦ ?_⟩)
          exact List.mem_singleton.mp hlabels ▸ hs
        · exact congrArg (s :: ·) (ih fun labels hlabels ↦
            List.mem_append.mpr ((List.mem_append.mp hlabels).imp_left (h ·)))

theorem firstsAfter_filter_notMem (h : done' ⊆ done) (samples : List Sample) :
    firstsAfter done (samples.filter (·.labels ∉ done')) = firstsAfter done samples := by
  induction samples generalizing done with
  | nil => rfl
  | cons s samples ih =>
      rw [List.filter_cons, firstsAfter]
      by_cases hs : s.labels ∈ done'
      · rw [if_neg (by simpa using hs), if_pos (h hs), ih h]
      · rw [if_pos (by simpa using hs), firstsAfter, ih h,
          ih fun labels hlabels ↦ List.mem_append_left _ (h hlabels)]

theorem firstsAfter_eq_nil {samples : List Sample} (h : ∀ s ∈ samples, s.labels ∈ done) :
    firstsAfter done samples = [] := by
  refine List.eq_nil_iff_forall_not_mem.mpr fun s hs ↦ ?_
  obtain ⟨hnew, hfind⟩ := mem_firstsAfter_iff.mp hs
  exact hnew (h s (List.mem_of_find?_eq_some hfind))

theorem map_labels_firstsAfter_nil (samples : List Sample) :
    (firstsAfter [] samples).map (·.labels) = (samples.map (·.labels)).eraseDups := by
  induction samples using List.reverseRecOn with
  | nil => rfl
  | append_singleton samples s ih =>
      rw [firstsAfter_append, List.map_append, ih, List.map_append, List.map_singleton,
        eraseDups_concat, List.nil_append, firstsAfter]
      split
      · exact List.append_nil _
      · rfl

/-! ## Intersection and difference -/

theorem mem_and_iff {s : Sample} :
    s ∈ (SetOp.and.apply a b).samples ↔ s ∈ a.samples ∧ s.labels ∈ b.labelSets := by
  rw [apply_and, List.mem_filter, decide_eq_true_iff]

theorem mem_unless_iff {s : Sample} :
    s ∈ (SetOp.unless.apply a b).samples ↔ s ∈ a.samples ∧ s.labels ∉ b.labelSets := by
  rw [apply_unless, List.mem_filter, decide_eq_true_iff]

theorem mem_labelSets_unless_iff {labels : LabelSet} :
    labels ∈ (SetOp.unless.apply a b).labelSets ↔
      labels ∈ a.labelSets ∧ labels ∉ b.labelSets := by
  simp only [InstantVector.labelSets, List.mem_map, mem_unless_iff]
  constructor
  · rintro ⟨s, ⟨hs, hb⟩, rfl⟩
    exact ⟨⟨s, hs, rfl⟩, hb⟩
  · rintro ⟨⟨s, hs, rfl⟩, hb⟩
    exact ⟨s, ⟨hs, hb⟩, rfl⟩

/-- Intersection and difference share out the samples of the left vector. -/
theorem and_append_unless_perm (a b : InstantVector) :
    ((SetOp.and.apply a b).samples ++ (SetOp.unless.apply a b).samples).Perm a.samples := by
  rw [apply_and, apply_unless]
  simpa using List.filter_append_perm (fun s : Sample ↦ decide (s.labels ∈ b.labelSets)) a.samples

/-- Intersection is what difference leaves out. -/
theorem and_eq_unless_unless (a b : InstantVector) :
    SetOp.and.apply a b = SetOp.unless.apply a (SetOp.unless.apply a b) := by
  rw [apply_and, apply_unless a (SetOp.unless.apply a b)]
  congr 1
  refine List.filter_congr fun s hs ↦ decide_eq_decide.mpr ?_
  have ha : s.labels ∈ a.labelSets := List.mem_map_of_mem hs
  rw [mem_labelSets_unless_iff, not_and_not_right]
  exact ⟨fun h _ ↦ h, fun h ↦ h ha⟩

/-! ## Union -/

theorem labelSets_or (a b : InstantVector) :
    (SetOp.or.apply a b).labelSets = (a.labelSets ++ b.labelSets).eraseDups := by
  rw [apply_or, InstantVector.labelSets, map_labels_firstsAfter_nil, List.map_append]
  rfl

theorem find?_of_mem_or {s : Sample} (hs : s ∈ (SetOp.or.apply a b).samples) :
    (a.samples ++ b.samples).find? (·.labels = s.labels) = some s := by
  rw [apply_or] at hs
  exact (mem_firstsAfter_iff.mp hs).2

/-- A union takes from the right only what is not on the left. -/
theorem or_eq_or_unless (a b : InstantVector) :
    SetOp.or.apply a b = SetOp.or.apply a (SetOp.unless.apply b a) := by
  rw [apply_or, apply_or, apply_unless, firstsAfter_append, firstsAfter_append]
  congr 2
  exact (firstsAfter_filter_notMem (List.subset_append_right _ _) b.samples).symm

theorem firstsAfter_nil_append_left (front samples : List Sample) :
    firstsAfter [] (firstsAfter [] front ++ samples) = firstsAfter [] (front ++ samples) := by
  rw [firstsAfter_append, firstsAfter_append, firstsAfter_firstsAfter (List.Subset.refl _)]
  congr 1
  refine firstsAfter_congr (fun labels ↦ ?_) samples
  rw [map_labels_firstsAfter_nil, List.nil_append, List.nil_append, List.mem_eraseDups]

theorem firstsAfter_nil_append_right (front samples : List Sample) :
    firstsAfter [] (front ++ firstsAfter [] samples) = firstsAfter [] (front ++ samples) := by
  rw [firstsAfter_append, firstsAfter_append, firstsAfter_firstsAfter (List.nil_subset _)]

theorem apply_or_assoc (a b c : InstantVector) :
    SetOp.or.apply (SetOp.or.apply a b) c = SetOp.or.apply a (SetOp.or.apply b c) := by
  simp only [apply_or, firstsAfter_nil_append_left, firstsAfter_nil_append_right,
    List.append_assoc]

/-- A union has nothing more to take from its right side. -/
theorem or_or_self (a b : InstantVector) :
    SetOp.or.apply (SetOp.or.apply a b) b = SetOp.or.apply a b := by
  have hseen (s : Sample) (hs : s ∈ b.samples) :
      s.labels ∈ [] ++ (a.samples ++ b.samples).map (·.labels) :=
    List.mem_map_of_mem (List.mem_append_right _ hs)
  have hagain : firstsAfter [] (a.samples ++ b.samples ++ b.samples) =
      firstsAfter [] (a.samples ++ b.samples) := by
    rw [firstsAfter_append, firstsAfter_eq_nil hseen, List.append_nil]
  simp only [apply_or, firstsAfter_nil_append_left, hagain]

/-! ## The laws -/

/-- The laws of the set operators, for vectors that may repeat labels.  Intersection and
difference share out the samples of the left vector, each in its order, and intersection
is a difference from a difference.  A union has the label sets of both vectors, each once and in the
order of first occurrence, with the sample that occurs first; it takes from the right
what is not on the left, is associative, and takes nothing more when it is done again. -/
theorem apply_laws (a b c : InstantVector) :
    ((SetOp.and.apply a b).time = a.time ∧ (SetOp.unless.apply a b).time = a.time ∧
      (∀ s ∈ a.samples,
        (s.labels ∈ b.labelSets ∧ s ∈ (SetOp.and.apply a b).samples ∧
            s ∉ (SetOp.unless.apply a b).samples) ∨
          (s.labels ∉ b.labelSets ∧ s ∉ (SetOp.and.apply a b).samples ∧
            s ∈ (SetOp.unless.apply a b).samples)) ∧
      (SetOp.and.apply a b).samples.Sublist a.samples ∧
      (SetOp.unless.apply a b).samples.Sublist a.samples ∧
      ((SetOp.and.apply a b).samples ++ (SetOp.unless.apply a b).samples).Perm a.samples) ∧
    SetOp.and.apply a b = SetOp.unless.apply a (SetOp.unless.apply a b) ∧
    ((SetOp.or.apply a b).time = a.time ∧
      (∀ labels, labels ∈ (SetOp.or.apply a b).labelSets ↔
        labels ∈ a.labelSets ∨ labels ∈ b.labelSets) ∧
      (SetOp.or.apply a b).labelSets.Nodup ∧
      (SetOp.or.apply a b).labelSets.Pairwise (fun earlier later ↦
        (a.labelSets ++ b.labelSets).idxOf earlier <
          (a.labelSets ++ b.labelSets).idxOf later) ∧
      ∀ s ∈ (SetOp.or.apply a b).samples,
        (a.samples ++ b.samples).find? (·.labels = s.labels) = some s) ∧
    SetOp.or.apply a b = SetOp.or.apply a (SetOp.unless.apply b a) ∧
    SetOp.or.apply (SetOp.or.apply a b) c = SetOp.or.apply a (SetOp.or.apply b c) ∧
    SetOp.or.apply (SetOp.or.apply a b) b = SetOp.or.apply a b := by
  refine ⟨⟨time_apply _ a b, time_apply _ a b, fun s hs ↦ ?_, ?_, ?_,
    and_append_unless_perm a b⟩, and_eq_unless_unless a b,
    ⟨time_apply _ a b, fun labels ↦ ?_, ?_, ?_, fun s ↦ find?_of_mem_or⟩,
    or_eq_or_unless a b, apply_or_assoc a b c, or_or_self a b⟩
  · rw [mem_and_iff, mem_unless_iff]
    by_cases h : s.labels ∈ b.labelSets
    · exact .inl ⟨h, ⟨hs, h⟩, fun hunless ↦ hunless.2 h⟩
    · exact .inr ⟨h, fun hand ↦ h hand.2, hs, h⟩
  · rw [apply_and]
    exact List.filter_sublist
  · rw [apply_unless]
    exact List.filter_sublist
  · rw [labelSets_or, List.mem_eraseDups, List.mem_append]
  · rw [labelSets_or]
    exact nodup_eraseDups _
  · rw [labelSets_or]
    exact pairwise_idxOf_eraseDups _

end VectorQuery.SetOp
