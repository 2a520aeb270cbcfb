import Mathlib.Data.List.Nodup
import VectorQuery.Operator.Set
import VectorQuery.Proofs.Label.Signature

/-!
# Set operators by labels

The set operators said without signatures: a sample of the left vector is kept
for its labels being, or not being, those of a sample on the right, and a union
keeps the first sample of each label set.
-/

namespace VectorQuery.SetOp

open Signature

/-! ## Intersection and difference -/

theorem contains_signature_iff {found : Std.TreeSet Signature} {done : List LabelSet}
    (h : Records found done) (s : Sample) :
    found.contains (s.signature .all) ↔ s.labels ∈ done :=
  h s.labels

theorem records_foldl_insert {found : Std.TreeSet Signature} {done : List LabelSet}
    (h : Records found done) (samples : List Sample) :
    Records (samples.foldl (fun found s ↦ found.insert (s.signature .all)) found)
      (done ++ samples.map (·.labels)) := by
  induction samples generalizing found done with
  | nil => simpa using h
  | cons s samples ih =>
      rw [List.foldl_cons, List.map_cons, List.append_cons]
      exact ih (h.insert s.labels)

theorem records_signatures (v : InstantVector) : Records (signatures v) v.labelSets :=
  records_foldl_insert records_empty v.samples

theorem apply_and (v w : InstantVector) :
    SetOp.and.apply v w = ⟨v.time, v.samples.filter (·.labels ∈ w.labelSets)⟩ := by
  rw [apply]
  congr 2
  funext s
  exact Bool.eq_iff_iff.mpr
    ((contains_signature_iff (records_signatures w) s).trans decide_eq_true_iff.symm)

theorem apply_unless (v w : InstantVector) :
    SetOp.unless.apply v w = ⟨v.time, v.samples.filter (·.labels ∉ w.labelSets)⟩ := by
  rw [apply]
  congr 2
  funext s
  have hs := contains_signature_iff (records_signatures w) s
  simp only [decide_not, ← hs, Bool.decide_eq_true]

/-! ## Union -/

/-- The samples whose labels are neither among `done` nor those of an earlier
sample. -/
def firstsAfter (done : List LabelSet) : List Sample → List Sample
  | [] => []
  | s :: samples =>
      if s.labels ∈ done then firstsAfter done samples
      else s :: firstsAfter (done ++ [s.labels]) samples

theorem firsts_eq_firstsAfter {found : Std.TreeSet Signature} {done : List LabelSet}
    (h : Records found done) (samples : List Sample) :
    firsts found samples = firstsAfter done samples := by
  induction samples generalizing found done with
  | nil => rfl
  | cons s samples ih =>
      simp only [firsts, firstsAfter, contains_signature_iff h s, ih h]
      congr 2
      exact ih (h.insert s.labels)

theorem apply_or (v w : InstantVector) :
    SetOp.or.apply v w = ⟨v.time, firstsAfter [] (v.samples ++ w.samples)⟩ := by
  rw [apply, firsts_eq_firstsAfter records_empty]

/-- What is kept is the first sample of each label set that is not among `done`. -/
theorem mem_firstsAfter_iff {done : List LabelSet} {samples : List Sample} {s : Sample} :
    s ∈ firstsAfter done samples ↔
      s.labels ∉ done ∧ samples.find? (·.labels = s.labels) = some s := by
  induction samples generalizing done with
  | nil => simp [firstsAfter]
  | cons t samples ih =>
      rw [firstsAfter, List.find?_cons]
      by_cases hst : t.labels = s.labels
      · -- the first sample with the labels of `s` is `t`
        rw [decide_eq_true hst, hst]
        split
        · rename_i hs
          rw [ih]
          exact ⟨fun h ↦ absurd hs h.1, fun h ↦ absurd hs h.1⟩
        · rename_i hs
          rw [List.mem_cons, ih]
          simp [hs, eq_comm]
      · rw [decide_eq_false hst]
        have hne : s ≠ t := fun h ↦ hst (h ▸ rfl)
        split
        · exact ih
        · rw [List.mem_cons, ih]
          simp [hne, Ne.symm hst]

theorem nodup_firstsAfter {done : List LabelSet} (hdone : done.Nodup)
    (samples : List Sample) :
    (done ++ (firstsAfter done samples).map (·.labels)).Nodup := by
  induction samples generalizing done with
  | nil => simpa [firstsAfter] using hdone
  | cons s samples ih =>
      rw [firstsAfter]
      split
      · exact ih hdone
      · rename_i hs
        rw [List.map_cons, List.append_cons]
        exact ih (by simpa using hdone.concat hs)

/-! ## Time and label sets of the result -/

theorem time_apply (op : SetOp) (v w : InstantVector) : (op.apply v w).time = v.time := by
  cases op <;> rfl

/-- Operators on sets keep samples of the left vector, or the first sample of
each label set. -/
theorem nodup_labelSets_apply (op : SetOp) {v : InstantVector} (w : InstantVector)
    (hv : v.labelSets.Nodup) : (op.apply v w).labelSets.Nodup := by
  match op with
  | .and =>
      rw [apply_and]
      exact hv.sublist (List.filter_sublist.map _)
  | .unless =>
      rw [apply_unless]
      exact hv.sublist (List.filter_sublist.map _)
  | .or =>
      rw [apply_or]
      exact nodup_firstsAfter List.nodup_nil (v.samples ++ w.samples)

end VectorQuery.SetOp
