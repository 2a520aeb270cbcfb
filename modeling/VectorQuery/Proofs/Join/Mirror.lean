import VectorQuery.Join

/-!
# Exchanging the operands of a join

There are two ways to join many samples with one: with the many on the left, or
with the operands exchanged and the many on the right.  Both walk the same side
against the same index, and differ in the order of the numbers that they combine,
in the name of the side that is indexed, and in the operand that gives the time.
-/

namespace VectorQuery

/-- The same way to join, for another cardinality. -/
def JoinSpec.withCardinality (spec : JoinSpec) (cardinality : Cardinality) : JoinSpec :=
  { spec with matching := { spec.matching with cardinality } }

namespace Join

variable (spec : JoinSpec) (combine : Combine)

/-- The combination with its numbers exchanged. -/
def exchanged : Combine := fun x y ↦ combine y x

/-! ## The steps of a walk -/

theorem operands_oneToMany (s o : Sample) :
    operands (spec.withCardinality .oneToMany).matching s o =
      (operands (spec.withCardinality .manyToOne).matching s o).swap := rfl

theorem resultLabels_oneToMany (s o : Sample) :
    resultLabels (spec.withCardinality .oneToMany).matching s o =
      resultLabels (spec.withCardinality .manyToOne).matching s o := rfl

theorem consume_oneToMany (index : Index) (key : Signature) :
    consume (spec.withCardinality .oneToMany).matching index key =
      consume (spec.withCardinality .manyToOne).matching index key := rfl

/-- With the numbers of each pair exchanged, a pair yields what it yields in the
other join. -/
theorem resultValue_oneToMany (call : Float × Float) :
    resultValue (spec.withCardinality .oneToMany) (exchanged combine call.swap.1 call.swap.2) =
      resultValue (spec.withCardinality .manyToOne) (combine call.1 call.2) := rfl

/-! ## Whole runs -/

/-- The same samples are walked to the same end, by induction on these: index and
emitted labels are those of the other join after each of them. -/
theorem walk_oneToMany (index : Index) (emitted : Std.TreeSet Signature)
    (samples : List Sample) :
    walk (spec.withCardinality .oneToMany) (exchanged combine) index emitted samples =
      (walk (spec.withCardinality .manyToOne) combine index emitted samples).map
        (·.map Prod.swap) id := by
  induction samples generalizing index emitted with
  | nil => rfl
  | cons s samples ih =>
      have hfilter : (spec.withCardinality .oneToMany).matching.filter =
        (spec.withCardinality .manyToOne).matching.filter := rfl
      rw [walk, walk, hfilter]
      cases index[s.signature (spec.withCardinality .manyToOne).matching.filter]? with
      | none => exact ih index emitted
      | some o =>
          simp only [operands_oneToMany, resultValue_oneToMany, resultLabels_oneToMany,
            consume_oneToMany, ih]
          split
          · rfl
          · split <;> rfl

end Join

namespace InstantVector

open Join

/-- Joining many on the left with one on the right is the same as joining, with
the operands exchanged, one on the left with many on the right.  The numbers that
are combined are the same, exchanged.  Either both joins have the same samples,
each at the time of its right operand, or both fail on the same labels: on the
side of which there has to be one, or both in the result. -/
theorem joinRun_exchanged (a b : InstantVector) (spec : JoinSpec) (combine : Combine) :
    (b.joinRun a (spec.withCardinality .oneToMany) (exchanged combine)).calls =
      (a.joinRun b (spec.withCardinality .manyToOne) combine).calls.map Prod.swap ∧
    ((∃ samples,
      (a.joinRun b (spec.withCardinality .manyToOne) combine).outcome =
          .ok ⟨b.time, samples⟩ ∧
        (b.joinRun a (spec.withCardinality .oneToMany) (exchanged combine)).outcome =
          .ok ⟨a.time, samples⟩) ∨
      (∃ labels,
        (a.joinRun b (spec.withCardinality .manyToOne) combine).outcome =
            .error ⟨labels, .right⟩ ∧
          (b.joinRun a (spec.withCardinality .oneToMany) (exchanged combine)).outcome =
            .error ⟨labels, .left⟩) ∨
      ∃ labels,
        (a.joinRun b (spec.withCardinality .manyToOne) combine).outcome =
            .error ⟨labels, .result⟩ ∧
          (b.joinRun a (spec.withCardinality .oneToMany) (exchanged combine)).outcome =
            .error ⟨labels, .result⟩) := by
  -- both index the samples of `b` and walk those of `a`
  have hleft : a.joinRun b (spec.withCardinality .manyToOne) combine =
    run (spec.withCardinality .manyToOne) combine .right b.time a.samples b.samples := rfl
  have hright : b.joinRun a (spec.withCardinality .oneToMany) (exchanged combine) =
    run (spec.withCardinality .oneToMany) (exchanged combine) .left a.time a.samples
      b.samples := rfl
  have hfilter : (spec.withCardinality .oneToMany).matching.filter =
    (spec.withCardinality .manyToOne).matching.filter := rfl
  rw [hleft, hright, run, run, hfilter]
  cases extend (spec.withCardinality .manyToOne).matching.filter ∅ b.samples with
  | error labels => exact ⟨rfl, .inr (.inl ⟨labels, rfl, rfl⟩)⟩
  | ok index =>
      simp only [walk_oneToMany, Prod.map_fst, Prod.map_snd, id_eq, true_and]
      cases (walk (spec.withCardinality .manyToOne) combine index ∅ a.samples).2 with
      | error labels => exact .inr (.inr ⟨labels, rfl, rfl⟩)
      | ok samples => exact .inl ⟨samples, rfl, rfl⟩

end InstantVector

end VectorQuery
