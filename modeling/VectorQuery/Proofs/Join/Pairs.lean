import Mathlib.Data.List.Perm.Basic
import VectorQuery.Proofs.Join.Index

/-!
# The pairs of a join

A pair is matched if its samples have the same key and, where both sides are unique,
no earlier sample of the walked side has that key.  Two facts on this are what the
laws of joins rest on: where both sides are unique, no two pairs have the same labels;
and where nothing is taken from a later sample by an earlier one, a sample is matched
with all samples of its key, wherever it stands.
-/

namespace VectorQuery.NestedLoop

variable {left right : InstantVector} {spec : JoinSpec} {one many earlier : List Sample}

/-! ## What is matched -/

theorem mem_pairsAfter_iff {p : Pair} :
    p ∈ pairsAfter spec one earlier many ↔
      ∃ before after, many = before ++ p.many :: after ∧ p.one ∈ one ∧
        Matches spec (earlier ++ before) p.many p.one := by
  induction many generalizing earlier with
  | nil => simp [pairsAfter]
  | cons s many ih =>
      rw [pairsAfter, List.mem_append, ih]
      constructor
      · rintro (hp | ⟨before, after, rfl, hone, h⟩)
        · obtain ⟨o, ho, rfl⟩ := List.mem_map.mp hp
          obtain ⟨ho, h⟩ := List.mem_filter.mp ho
          exact ⟨[], many, rfl, ho, by simpa using h⟩
        · exact ⟨s :: before, after, rfl, hone, by rwa [List.append_cons]⟩
      · rintro ⟨before, after, hsplit, hone, h⟩
        cases before with
        | nil =>
            obtain ⟨rfl, rfl⟩ := List.cons_eq_cons.mp hsplit
            refine .inl (List.mem_map.mpr ⟨p.one, List.mem_filter.mpr ⟨hone, ?_⟩, rfl⟩)
            simpa using h
        | cons t before =>
            obtain ⟨rfl, rfl⟩ := List.cons_eq_cons.mp hsplit
            exact .inr ⟨before, after, rfl, hone, by rwa [← List.append_cons]⟩

theorem mem_of_mem_pairsAfter {p : Pair} (hp : p ∈ pairsAfter spec one earlier many) :
    p.many ∈ many ∧ p.one ∈ one := by
  obtain ⟨before, after, rfl, hone, -⟩ := mem_pairsAfter_iff.mp hp
  exact ⟨List.mem_append_right before List.mem_cons_self, hone⟩

/-- The samples of a pair are one of the left and one of the right vector. -/
theorem mem_samples_of_mem_pairs {p : Pair} (hp : p ∈ pairs spec left right) :
    p.many ∈ left.samples ∧ p.one ∈ right.samples ∨
      p.many ∈ right.samples ∧ p.one ∈ left.samples := by
  obtain ⟨hmany, hone⟩ := mem_of_mem_pairsAfter hp
  cases h : spec.matching.cardinality with
  | oneToMany =>
      simp only [manySide, oneSide, h] at hmany hone
      exact .inr ⟨hmany, hone⟩
  | oneToOne | manyToOne =>
      simp only [manySide, oneSide, h] at hmany hone
      exact .inl ⟨hmany, hone⟩

theorem key_eq_of_mem_pairsAfter {p : Pair} (hp : p ∈ pairsAfter spec one earlier many) :
    p.many.key spec.matching.filter = p.one.key spec.matching.filter := by
  obtain ⟨before, after, -, -, h⟩ := mem_pairsAfter_iff.mp hp
  exact h.1

/-- Where both sides are unique, no two pairs have the same labels: what is matched
is the first sample with its key. -/
theorem nodup_labels_pairsAfter (hcard : spec.matching.cardinality = .oneToOne)
    (hone : (one.map (·.key spec.matching.filter)).Nodup) (earlier many : List Sample) :
    ((pairsAfter spec one earlier many).map (·.labels spec)).Nodup := by
  induction many generalizing earlier with
  | nil => exact List.nodup_nil
  | cons s many ih =>
      rw [pairsAfter, Join.filter_matches_eq hone]
      cases one.find? (Matches spec earlier s) with
      | none => exact ih _
      | some o =>
          rw [Option.toList_some, List.map_singleton, List.singleton_append, List.map_cons,
            Pair.labels_of_oneToOne hcard]
          refine List.nodup_cons.mpr ⟨fun hs ↦ ?_, ih _⟩
          obtain ⟨p, hp, hkey⟩ := List.mem_map.mp hs
          rw [Pair.labels_of_oneToOne hcard] at hkey
          obtain ⟨before, after, -, -, h⟩ := mem_pairsAfter_iff.mp hp
          exact h.2 hcard s (by simp) hkey.symm

/-- Among samples with keys of their own, a sample has at most one partner, so that
the walked side of the pairs is the walked side with some samples left out. -/
theorem many_pairsAfter_sublist (hone : (one.map (·.key spec.matching.filter)).Nodup)
    (earlier many : List Sample) :
    ((pairsAfter spec one earlier many).map (·.many)).Sublist many := by
  induction many generalizing earlier with
  | nil => exact List.Sublist.slnil
  | cons s many ih =>
      rw [pairsAfter, Join.filter_matches_eq hone]
      cases one.find? (Matches spec earlier s) with
      | none => exact (ih _).cons s
      | some o => exact (ih _).cons_cons s

/-! ## Where nothing is taken away -/

/-- Unless an earlier sample can take the partner of a later one, each sample is
matched with all samples of its key. -/
theorem pairsAfter_eq_flatMap
    (hmany : spec.matching.cardinality = .oneToOne →
      ((earlier ++ many).map (·.key spec.matching.filter)).Nodup) :
    pairsAfter spec one earlier many =
      many.flatMap fun s ↦ (one.filter (Matches spec [] s)).map (⟨s, ·⟩) := by
  induction many generalizing earlier with
  | nil => rfl
  | cons s many ih =>
      have hmatches (o : Sample) : Matches spec earlier s o ↔ Matches spec [] s o := by
        rw [Join.matches_nil_iff]
        refine ⟨And.left, fun h ↦ ⟨h, fun hcard t ht hkey ↦ ?_⟩⟩
        have hnodup := hmany hcard
        rw [List.map_append, List.map_cons, List.nodup_middle, List.nodup_cons] at hnodup
        exact hnodup.1 (List.mem_append_left _ (List.mem_map.mpr ⟨t, ht, hkey⟩))
      simp only [pairsAfter, hmatches, List.flatMap_cons]
      rw [ih (by simpa using hmany)]

theorem mem_pairsAfter_nil_iff {p : Pair}
    (hmany : spec.matching.cardinality = .oneToOne →
      (many.map (·.key spec.matching.filter)).Nodup) :
    p ∈ pairsAfter spec one [] many ↔ p.many ∈ many ∧ p.one ∈ one ∧
      p.many.key spec.matching.filter = p.one.key spec.matching.filter := by
  rw [pairsAfter_eq_flatMap hmany]
  simp only [List.mem_flatMap, List.mem_map, List.mem_filter, decide_eq_true_eq,
    Join.matches_nil_iff]
  constructor
  · rintro ⟨s, hs, o, ⟨ho, hkey⟩, rfl⟩
    exact ⟨hs, ho, hkey⟩
  · rintro ⟨hs, ho, hkey⟩
    exact ⟨p.many, hs, p.one, ⟨ho, hkey⟩, rfl⟩

end VectorQuery.NestedLoop
