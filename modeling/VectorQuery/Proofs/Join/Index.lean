import VectorQuery.Proofs.Join.NestedLoop
import VectorQuery.Proofs.Label.Signature

/-!
# The indexed join is the nested loop

The run of a join goes through an index, from which a matched sample may be
taken away, and through a set of the signatures of its results.  What ties the
index to the two sides is `Offers`: after some samples of the walked side, it
finds for a key exactly the partner that the nested loop would find.  Building
the index establishes this, and each step of the walk keeps it.

That signatures are compared in place of labels makes no difference, since they
identify the labels.
-/

namespace VectorQuery.Join

open NestedLoop

variable {spec : JoinSpec} {combine : Combine} {one earlier : List Sample}
variable {index : Index}

/-! ## Keys and signatures -/

theorem signature_eq_iff {s t : Sample} {f : LabelFilter} :
    s.signature f = t.signature f ↔ s.key f = t.key f :=
  LabelSet.signature_inj

theorem getElem?_insert_signature (index : Index) (f : LabelFilter) (s t : Sample) :
    (index.insert (s.signature f) s)[t.signature f]? =
      if s.key f = t.key f then some s else index[t.signature f]? := by
  simp [Std.TreeMap.getElem?_insert, signature_eq_iff]

theorem getElem?_erase_signature (index : Index) (f : LabelFilter) (s t : Sample) :
    (index.erase (s.signature f))[t.signature f]? =
      if s.key f = t.key f then none else index[t.signature f]? := by
  simp [Std.TreeMap.getElem?_erase, signature_eq_iff]

/-! ## Matching -/

@[simp] theorem matches_nil_iff {s o : Sample} :
    Matches spec [] s o ↔ s.key spec.matching.filter = o.key spec.matching.filter := by
  simp [Matches]

/-- One more sample on the walked side matters only to samples with its key, and
only where both sides are unique. -/
theorem matches_append_iff {s t o : Sample} :
    Matches spec (earlier ++ [s]) t o ↔
      Matches spec earlier t o ∧
        (spec.matching.cardinality = .oneToOne →
          s.key spec.matching.filter ≠ t.key spec.matching.filter) := by
  simp only [Matches, List.forall_mem_append, List.forall_mem_singleton]
  tauto

theorem find?_matches_eq_none_iff {s : Sample} :
    one.find? (Matches spec earlier s) = none ↔ ∀ o ∈ one, ¬ Matches spec earlier s o := by
  simp only [List.find?_eq_none, decide_eq_true_eq]

/-- Among samples with keys of their own, there is at most one partner. -/
theorem filter_matches_eq (hone : (one.map (·.key spec.matching.filter)).Nodup)
    (s : Sample) :
    one.filter (Matches spec earlier s) =
      (one.find? (Matches spec earlier s)).toList := by
  induction one with
  | nil => rfl
  | cons o one ih =>
      rw [List.map_cons, List.nodup_cons] at hone
      rw [List.filter_cons, List.find?_cons]
      by_cases ho : Matches spec earlier s o
      · -- a second partner would have the key of the first
        have hrest : one.filter (Matches spec earlier s) = [] := by
          refine List.filter_eq_nil_iff.mpr fun t ht hs ↦ hone.1 ?_
          have hkey := ho.1.symm.trans (of_decide_eq_true hs).1
          exact List.mem_map.mpr ⟨t, ht, hkey.symm⟩
        simp [ho, hrest]
      · simp [ho, ih hone.2]

/-! ## The invariant -/

/-- After the samples `earlier` of the walked side, the index holds for each key
the sample of the other side that is matched. -/
def Offers (spec : JoinSpec) (one earlier : List Sample) (index : Index) : Prop :=
  ∀ s : Sample,
    index[s.signature spec.matching.filter]? = one.find? (Matches spec earlier s)

theorem offers_empty (spec : JoinSpec) : Offers spec [] [] ∅ := by
  intro s
  simp

/-- An index finds a sample exactly if one with its key has been put in. -/
theorem Offers.contains_iff (h : Offers spec one [] index) (s : Sample) :
    index.contains (s.signature spec.matching.filter) ↔
      s.key spec.matching.filter ∈ one.map (·.key spec.matching.filter) := by
  rw [Std.TreeMap.contains_eq_isSome_getElem?, h s, List.find?_isSome]
  simp [eq_comm]

/-- Putting in a sample with a key of its own. -/
theorem Offers.insert (h : Offers spec one [] index) {s : Sample}
    (hs : s.key spec.matching.filter ∉ one.map (·.key spec.matching.filter)) :
    Offers spec (one ++ [s]) [] (index.insert (s.signature spec.matching.filter) s) := by
  intro t
  rw [getElem?_insert_signature, h t, List.find?_append]
  by_cases hst : s.key spec.matching.filter = t.key spec.matching.filter
  · have hnone : one.find? (Matches spec [] t) = none := by
      rw [find?_matches_eq_none_iff]
      intro o ho hm
      exact hs (List.mem_map.mpr ⟨o, ho, (hst.trans hm.1).symm⟩)
    rw [if_pos hst, hnone]
    simp [hst]
  · simp [hst, Ne.symm hst]

/-- A sample without a partner leaves the index as it has to be. -/
theorem Offers.skip (h : Offers spec one earlier index) {s : Sample}
    (hs : index[s.signature spec.matching.filter]? = none) :
    Offers spec one (earlier ++ [s]) index := by
  intro t
  by_cases hst : s.key spec.matching.filter = t.key spec.matching.filter
  · -- `t` has no partner either, with or without `s` before it
    have hnone : one.find? (Matches spec earlier t) = none := by
      rw [← h t, ← signature_eq_iff.mpr hst, hs]
    rw [h t, hnone, eq_comm, find?_matches_eq_none_iff]
    intro o ho hm
    exact find?_matches_eq_none_iff.mp hnone o ho (matches_append_iff.mp hm).1
  · simp only [h t, matches_append_iff, ne_eq, hst, not_false_eq_true, implies_true,
      and_true]

/-- After a sample has been matched, its partner is taken away where both sides
are unique. -/
theorem Offers.consume (h : Offers spec one earlier index) (s : Sample) :
    Offers spec one (earlier ++ [s])
      (consume spec.matching index (s.signature spec.matching.filter)) := by
  intro t
  rw [Join.consume]
  split
  · rename_i hcard
    rw [getElem?_erase_signature, h t]
    by_cases hst : s.key spec.matching.filter = t.key spec.matching.filter
    · rw [if_pos hst, eq_comm, find?_matches_eq_none_iff]
      intro o _ hm
      exact (matches_append_iff.mp hm).2 hcard hst
    · simp [hst, matches_append_iff]
  · rename_i hcard
    have hcard : spec.matching.cardinality ≠ .oneToOne := hcard
    simp [h t, matches_append_iff, hcard]

/-! ## Building the index -/

/-- Building the index fails exactly if a key is repeated, with the first one
that is. -/
theorem extend_eq (h : Offers spec one [] index) (samples : List Sample) :
    match firstRepeat? (one.map (·.key spec.matching.filter))
        (samples.map (·.key spec.matching.filter)) with
    | some labels => extend spec.matching.filter index samples = .error labels
    | none => ∃ index', extend spec.matching.filter index samples = .ok index' ∧
        Offers spec (one ++ samples) [] index' := by
  induction samples generalizing one index with
  | nil => exact ⟨index, rfl, by simpa using h⟩
  | cons s samples ih =>
      simp only [List.map_cons, firstRepeat?, extend, h.contains_iff s]
      by_cases hs : s.key spec.matching.filter ∈ one.map (·.key spec.matching.filter)
      · simp only [if_pos hs]
        rfl
      · have hnext := ih (h.insert hs)
        simpa only [if_neg hs, List.map_append, List.map_singleton, List.append_assoc,
          List.singleton_append] using hnext

/-! ## The walk -/

theorem operands_eq_call (s o : Sample) :
    operands spec.matching s o = Pair.call spec ⟨s, o⟩ := by
  cases h : spec.matching.cardinality <;> simp [operands, Pair.call, h]

theorem resultLabels_eq_labels (s o : Sample) :
    Join.resultLabels spec.matching s o = Pair.labels spec ⟨s, o⟩ := by
  cases h : spec.matching.cardinality <;>
    simp [Join.resultLabels, Pair.labels, h, Sample.key, LabelSet.withIncluded_eq_overridden]

theorem resultValue_call (p : Pair) :
    resultValue spec (combine (p.call spec).1 (p.call spec).2) = p.value? spec combine := by
  rw [resultValue, Pair.value?]
  cases spec.returnBool <;> cases combine (p.call spec).1 (p.call spec).2 <;> rfl

/-- Walking samples against the index combines the pairs of the nested loop one
by one. -/
theorem walk_eq_emit (hone : (one.map (·.key spec.matching.filter)).Nodup)
    {emitted : Std.TreeSet Signature} {done : List LabelSet}
    (hindex : Offers spec one earlier index) (hemitted : Signature.Records emitted done)
    (many : List Sample) :
    walk spec combine index emitted many =
      emit spec combine done (pairsAfter spec one earlier many) := by
  induction many generalizing earlier index emitted done with
  | nil => rfl
  | cons s many ih =>
      -- both sides now look at the one partner that `s` may have
      rw [walk, pairsAfter, filter_matches_eq hone, ← hindex s]
      cases hs : index[s.signature spec.matching.filter]? with
      | none => simpa using ih (hindex.skip hs) hemitted
      | some o =>
          have hnext := hindex.consume s
          simp only [operands_eq_call, resultValue_call, resultLabels_eq_labels,
            Option.toList_some, List.map_singleton, List.singleton_append, emit, Pair.result?]
          cases hv : Pair.value? spec combine ⟨s, o⟩ with
          | none => simp [ih hnext hemitted]
          | some value =>
              simp only [hemitted _, Option.map_some]
              split
              · rfl
              · rw [ih hnext (hemitted.insert _)]

/-- Joining with an index does what nested loops do: the same numbers are
combined in the same order, and the same comes of them. -/
theorem joinRun_eq_run (left right : InstantVector) (spec : JoinSpec) (combine : Combine) :
    left.joinRun right spec combine = NestedLoop.run spec combine left right := by
  have hrun : left.joinRun right spec combine =
      Join.run spec combine (oneSideName spec) right.time (manySide spec left right)
        (oneSide spec left right) := by
    rw [InstantVector.joinRun, oneSideName, manySide, oneSide]
    cases spec.matching.cardinality <;> rfl
  have hextend := extend_eq (offers_empty spec) (oneSide spec left right)
  rw [List.map_nil, ← oneKeys] at hextend
  rw [hrun, Join.run, NestedLoop.run]
  cases hrepeat : firstRepeat? [] (oneKeys spec left right) with
  | some labels =>
      rw [hrepeat] at hextend
      rw [hextend]
  | none =>
      rw [hrepeat] at hextend
      obtain ⟨index, hok, hindex⟩ := hextend
      have hone := firstRepeat?_nil_eq_none_iff.mp hrepeat
      have hwalk : walk spec combine index ∅ (manySide spec left right) =
          emit spec combine [] (pairs spec left right) :=
        walk_eq_emit hone hindex Signature.records_empty _
      rw [hok]
      exact hwalk ▸ rfl

end VectorQuery.Join
