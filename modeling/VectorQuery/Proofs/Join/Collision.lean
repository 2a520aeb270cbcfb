import VectorQuery.Proofs.Join.Outcome
import VectorQuery.Proofs.Join.Pairs

/-!
# Results with labels of their own

When the results of a join cannot repeat labels.  Where both sides are unique, they
never do.  Where there may be many samples for one, they do not if the samples of the
walked side have labels of their own and none of these is overridden by another value:
each included name is one that the matched samples have in common, or one that the
walked side does not have.  Such a join can only fail for a repeated key.
-/

namespace VectorQuery.NestedLoop

variable {spec : JoinSpec} {one many earlier : List Sample}

/-- No name that the walked side takes over can change a label of its samples. -/
def AddsLabelsOnly (spec : JoinSpec) (many : List Sample) : Prop :=
  ∀ name ∈ spec.matching.included, spec.matching.filter.keeps name = true ∨
    ∀ s ∈ many, s.labels.get? name = none

instance (spec : JoinSpec) (many : List Sample) : Decidable (AddsLabelsOnly spec many) :=
  inferInstanceAs (Decidable (∀ name ∈ _, _ ∨ _))

/-- Pairs with the same labels have the same labels on the walked side. -/
theorem many_labels_eq_of_labels_eq (hcard : spec.matching.cardinality ≠ .oneToOne)
    (hadds : AddsLabelsOnly spec many) {p q : Pair}
    (hp : p ∈ pairsAfter spec one earlier many) (hq : q ∈ pairsAfter spec one earlier many)
    (h : p.labels spec = q.labels spec) : p.many.labels = q.many.labels := by
  rw [Pair.labels_of_ne_oneToOne hcard, Pair.labels_of_ne_oneToOne hcard] at h
  refine LabelSet.eq_of_overridden_eq (key_eq_of_mem_pairsAfter hp)
    (key_eq_of_mem_pairsAfter hq) (fun name hname ↦ ?_) h
  refine (hadds name hname).imp_right fun habsent ↦ ⟨?_, ?_⟩
  · exact habsent _ (mem_of_mem_pairsAfter hp).1
  · exact habsent _ (mem_of_mem_pairsAfter hq).1

/-- Where labels are only added, no two pairs have the same ones unless samples of the
walked side do. -/
theorem nodup_labels_of_addsLabelsOnly (hcard : spec.matching.cardinality ≠ .oneToOne)
    (hone : (one.map (·.key spec.matching.filter)).Nodup)
    (hmany : (many.map (·.labels)).Nodup) (hadds : AddsLabelsOnly spec many) :
    ((pairsAfter spec one earlier many).map (·.labels spec)).Nodup := by
  have hwalked : ((pairsAfter spec one earlier many).map (·.many.labels)).Nodup := by
    have hsublist := (many_pairsAfter_sublist hone earlier many).map (·.labels)
    rw [List.map_map] at hsublist
    exact hmany.sublist hsublist
  refine List.pairwise_map.mpr ((List.pairwise_map.mp hwalked).imp_of_mem ?_)
  intro p q hp hq hne h
  exact hne (many_labels_eq_of_labels_eq hcard hadds hp hq h)

/-- A join in which both sides are unique never repeats labels in its result, whatever
the samples are.  Neither does a join of many with one if the samples of the walked
side have labels of their own and each included name is kept by the filter or absent
from the walked side.  No two pairs have the same labels then, whichever of them are
kept, and the join succeeds unless a key is repeated. -/
theorem join_ne_error_result (left right : InstantVector) (spec : JoinSpec)
    (combine : Combine)
    (hlabels : spec.matching.cardinality ≠ .oneToOne →
      ((manySide spec left right).map (·.labels)).Nodup ∧
        AddsLabelsOnly spec (manySide spec left right)) :
    ((oneKeys spec left right).Nodup →
      ((pairs spec left right).map (·.labels spec)).Nodup) ∧
    (∀ labels, left.join right spec combine ≠ .error ⟨labels, .result⟩) ∧
    ((∃ joined, left.join right spec combine = .ok joined) ↔
      (oneKeys spec left right).Nodup) := by
  have hpairs (hone : (oneKeys spec left right).Nodup) :
      ((pairs spec left right).map (·.labels spec)).Nodup := by
    by_cases hcard : spec.matching.cardinality = .oneToOne
    · exact nodup_labels_pairsAfter hcard hone [] _
    · obtain ⟨hmany, hadds⟩ := hlabels hcard
      exact nodup_labels_of_addsLabelsOnly hcard hone hmany hadds
  have hresults (hone : (oneKeys spec left right).Nodup) :
      (resultLabels spec combine (pairs spec left right)).Nodup :=
    (hpairs hone).sublist (resultLabels_sublist _)
  refine ⟨hpairs, ?_, ?_, ?_⟩
  · intro labels h
    obtain ⟨hone, hrepeated⟩ := exists_join_eq_result_iff.mp ⟨labels, h⟩
    exact hrepeated (hresults hone)
  · rintro ⟨joined, h⟩
    exact (join_eq_ok_iff.mp h).1
  · intro hone
    exact ⟨_, join_eq_ok_iff.mpr ⟨hone, hresults hone, rfl⟩⟩

/-- Matching by host with `bool`, where the processors take over the data centre, which
they do not have, and the host, which they share. -/
def byHostAndCentre : JoinSpec := ⟨⟨.oneToMany, ["host"], true, ["dc", "host"]⟩, true⟩

theorem join_hosts_processors_ne_error_result :
    ((manySide byHostAndCentre hosts processors).map (·.labels)).Nodup ∧
    AddsLabelsOnly byHostAndCentre (manySide byHostAndCentre hosts processors) ∧
    (∀ labels, hosts.join processors byHostAndCentre quotientAboveOne ≠
      .error ⟨labels, .result⟩) ∧
    ∃ joined, hosts.join processors byHostAndCentre quotientAboveOne = .ok joined := by
  have hmany : ((manySide byHostAndCentre hosts processors).map (·.labels)).Nodup := by
    decide
  have hadds : AddsLabelsOnly byHostAndCentre (manySide byHostAndCentre hosts processors) := by
    decide +kernel
  have hone : (oneKeys byHostAndCentre hosts processors).Nodup := by decide
  obtain ⟨-, hne, hok⟩ := join_ne_error_result hosts processors byHostAndCentre quotientAboveOne
    fun _ ↦ ⟨hmany, hadds⟩
  exact ⟨hmany, hadds, hne, hok.mpr hone⟩

/-- With a name that the walked side has at other values, results can collide: both
processors of the first host are relabelled as their total. -/
example :
    processors.join
        (.ofRows (.ofUnixSeconds 6) [([("host", "h1"), ("cpu", "total")], 10)])
        ⟨⟨.manyToOne, ["host"], true, ["cpu"]⟩, false⟩ (fun x y ↦ some (x / y)) =
      .error ⟨.ofPairs [("cpu", "total"), ("host", "h1")], .result⟩ := by
  decide +kernel

end VectorQuery.NestedLoop
