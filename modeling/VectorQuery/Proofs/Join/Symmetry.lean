import VectorQuery.Proofs.Join.Mirror
import VectorQuery.Proofs.Join.Outcome
import VectorQuery.Proofs.Join.Pairs

/-!
# Unique samples on both sides

Where both sides are unique and neither repeats a key, the pairs of a join are all pairs
of samples with the same key.  They are the same pairs, exchanged, if the operands are;
and since the labels of a result are the common key of its pair, it makes no difference
which side they are taken from.
-/

namespace VectorQuery.NestedLoop

open Join

variable {spec : JoinSpec} {combine : Combine} {a b : InstantVector}

namespace Pair

/-- The pair with its samples exchanged. -/
def swap (p : Pair) : Pair := ⟨p.one, p.many⟩

theorem swap_injective : Function.Injective swap := by
  rintro ⟨s, o⟩ ⟨t, u⟩ h
  cases h
  rfl

theorem call_swap (hcard : spec.matching.cardinality = .oneToOne) (p : Pair) :
    p.swap.call spec = (p.call spec).swap := by
  rw [call, call, hcard]
  rfl

theorem labels_swap (hcard : spec.matching.cardinality = .oneToOne) {p : Pair}
    (hkey : p.many.key spec.matching.filter = p.one.key spec.matching.filter) :
    p.swap.labels spec = p.labels spec := by
  rw [labels_of_oneToOne hcard, labels_of_oneToOne hcard]
  exact hkey.symm

/-- With its numbers exchanged, an exchanged pair yields what the pair does. -/
theorem result?_swap (hcard : spec.matching.cardinality = .oneToOne) {p : Pair}
    (hkey : p.many.key spec.matching.filter = p.one.key spec.matching.filter) :
    p.swap.result? spec (exchanged combine) = p.result? spec combine := by
  rw [result?, result?, labels_swap hcard hkey, value?, value?, call_swap hcard]
  rfl

end Pair

/-! ## The pairs of the exchanged operands -/

theorem mem_pairs_iff (hcard : spec.matching.cardinality = .oneToOne)
    (ha : (a.samples.map (·.key spec.matching.filter)).Nodup) {p : Pair} :
    p ∈ pairs spec a b ↔ p.many ∈ a.samples ∧ p.one ∈ b.samples ∧
      p.many.key spec.matching.filter = p.one.key spec.matching.filter := by
  rw [pairs, manySide, oneSide, hcard]
  exact mem_pairsAfter_nil_iff fun _ ↦ ha

theorem nodup_pairs (hcard : spec.matching.cardinality = .oneToOne)
    (hb : (b.samples.map (·.key spec.matching.filter)).Nodup) : (pairs spec a b).Nodup := by
  rw [pairs, oneSide, hcard]
  exact (nodup_labels_pairsAfter hcard hb [] _).of_map

theorem map_swap_pairs_perm (hcard : spec.matching.cardinality = .oneToOne)
    (ha : (a.samples.map (·.key spec.matching.filter)).Nodup)
    (hb : (b.samples.map (·.key spec.matching.filter)).Nodup) :
    ((pairs spec a b).map Pair.swap).Perm (pairs spec b a) := by
  refine (List.perm_ext_iff_of_nodup ((nodup_pairs hcard hb).map Pair.swap_injective)
    (nodup_pairs hcard ha)).mpr fun p ↦ ?_
  rw [mem_pairs_iff hcard hb, List.mem_map]
  constructor
  · rintro ⟨q, hq, rfl⟩
    obtain ⟨hmany, hone, hkey⟩ := (mem_pairs_iff hcard ha).mp hq
    exact ⟨hone, hmany, hkey.symm⟩
  · rintro ⟨hmany, hone, hkey⟩
    exact ⟨p.swap, (mem_pairs_iff hcard ha).mpr ⟨hone, hmany, hkey.symm⟩, rfl⟩

theorem results_perm_swap (hcard : spec.matching.cardinality = .oneToOne)
    (ha : (a.samples.map (·.key spec.matching.filter)).Nodup)
    (hb : (b.samples.map (·.key spec.matching.filter)).Nodup) (combine : Combine) :
    (results spec combine (pairs spec a b)).Perm
      (results spec (exchanged combine) (pairs spec b a)) := by
  have hswap := (map_swap_pairs_perm hcard ha hb).filterMap (·.result? spec (exchanged combine))
  rw [List.filterMap_map] at hswap
  have hsame : results spec combine (pairs spec a b) =
      (pairs spec a b).filterMap ((·.result? spec (exchanged combine)) ∘ Pair.swap) := by
    refine List.filterMap_congr fun p hp ↦ ?_
    exact (Pair.result?_swap hcard ((mem_pairs_iff hcard ha).mp hp).2.2).symm
  rw [hsame]
  exact hswap

/-! ## The join -/

theorem joinRun_eq_ok_of_oneToOne (hcard : spec.matching.cardinality = .oneToOne)
    (hb : (b.samples.map (·.key spec.matching.filter)).Nodup) :
    a.joinRun b spec combine = ⟨calls spec (pairs spec a b),
      .ok ⟨b.time, results spec combine (pairs spec a b)⟩⟩ := by
  have hone : (oneKeys spec a b).Nodup := by
    rw [oneKeys, oneSide, hcard]
    exact hb
  have hresult : (resultLabels spec combine (pairs spec a b)).Nodup :=
    (nodup_labels_pairsAfter hcard hone [] _).sublist (resultLabels_sublist _)
  rw [joinRun_eq_run]
  exact run_eq_of_nodup a b spec combine hone hresult

/-- Where both sides are unique and no key is repeated on either, joining in the one
order or in the other has the same samples, in some order, each at the time of its
right operand; the numbers that are combined are the same, exchanged. -/
theorem joinRun_symmetric (a b : InstantVector) (spec : JoinSpec) (combine : Combine)
    (hcard : spec.matching.cardinality = .oneToOne)
    (ha : (a.samples.map (·.key spec.matching.filter)).Nodup)
    (hb : (b.samples.map (·.key spec.matching.filter)).Nodup) :
    ∃ joined joined',
      a.join b spec combine = .ok joined ∧
        b.join a spec (exchanged combine) = .ok joined' ∧
        joined.samples.Perm joined'.samples ∧
        joined.time = b.time ∧ joined'.time = a.time ∧
        ((a.joinRun b spec combine).calls.map Prod.swap).Perm
          (b.joinRun a spec (exchanged combine)).calls := by
  rw [InstantVector.join, InstantVector.join, joinRun_eq_ok_of_oneToOne hcard hb,
    joinRun_eq_ok_of_oneToOne hcard ha]
  refine ⟨_, _, rfl, rfl, results_perm_swap hcard ha hb combine, rfl, rfl, ?_⟩
  have hcalls := (map_swap_pairs_perm hcard ha hb).map (·.call spec)
  simpa [calls, Function.comp_def, Pair.call_swap hcard] using hcalls

/-- The memory of three hosts, the first of which is not among `hosts`. -/
def memory : InstantVector :=
  .ofRows (.ofUnixSeconds 6)
    [([("host", "h3")], 9), ([("host", "h2"), ("kind", "ram")], 2), ([("host", "h1")], 4)]

/-- Matching by host, with both sides unique. -/
def onHost : JoinSpec := ⟨⟨.oneToOne, ["host"], true, []⟩, false⟩

theorem joinRun_hosts_memory :
    (hosts.samples.map (·.key onHost.matching.filter)).Nodup ∧
    (memory.samples.map (·.key onHost.matching.filter)).Nodup ∧
    ∃ joined joined',
      hosts.join memory onHost quotientAboveOne = .ok joined ∧
        memory.join hosts onHost (exchanged quotientAboveOne) = .ok joined' ∧
        joined.samples.Perm joined'.samples ∧
        joined.time = .ofUnixSeconds 6 ∧ joined'.time = .ofUnixSeconds 5 ∧
        [(4, 100), (2, 7)].Perm
          (memory.joinRun hosts onHost (exchanged quotientAboveOne)).calls := by
  have hhosts : (hosts.samples.map (·.key onHost.matching.filter)).Nodup := by decide
  have hmemory : (memory.samples.map (·.key onHost.matching.filter)).Nodup := by decide
  have hcalls : (hosts.joinRun memory onHost quotientAboveOne).calls.map Prod.swap =
      [(4, 100), (2, 7)] := by
    decide +kernel
  refine ⟨hhosts, hmemory, ?_⟩
  rw [← hcalls]
  exact joinRun_symmetric hosts memory onHost quotientAboveOne rfl hhosts hmemory

end VectorQuery.NestedLoop
