import Mathlib.Data.List.Nodup
import VectorQuery.Join
import VectorQuery.Proofs.Label.Set

/-!
# Joins as nested loops

What a join computes, said without an index and without signatures: every sample
of the walked side is compared with every sample of the other side, by the
labels themselves.  The pairs found in this way are combined in order, up to the
first result whose labels another result has already.

Samples are compared by their *key*, the labels that the filter keeps.  Where
both sides are unique, only the first of the walked samples with a key is
matched, whatever becomes of its pair.
-/

namespace VectorQuery

/-- The labels by which a join compares samples. -/
def Sample.key (s : Sample) (f : LabelFilter) : LabelSet := s.labels.project f

/-- The first element of a list that occurs before it, in the list or among
`seen`. -/
def firstRepeat? {α : Type} [DecidableEq α] (seen : List α) : List α → Option α
  | [] => none
  | x :: xs => if x ∈ seen then some x else firstRepeat? (seen ++ [x]) xs

namespace NestedLoop

/-- The side that is walked, of which there may be many samples for one of the
other side. -/
def manySide (spec : JoinSpec) (left right : InstantVector) : List Sample :=
  match spec.matching.cardinality with
  | .oneToMany => right.samples
  | _ => left.samples

/-- The side whose samples are told apart by their keys. -/
def oneSide (spec : JoinSpec) (left right : InstantVector) : List Sample :=
  match spec.matching.cardinality with
  | .oneToMany => left.samples
  | _ => right.samples

/-- How `oneSide` is called when its keys are repeated. -/
def oneSideName (spec : JoinSpec) : MatchSide :=
  match spec.matching.cardinality with
  | .oneToMany => .left
  | _ => .right

/-- Whether a sample of the walked side, which comes after the samples
`earlier`, is matched with a sample of the other side. -/
def Matches (spec : JoinSpec) (earlier : List Sample) (s o : Sample) : Prop :=
  s.key spec.matching.filter = o.key spec.matching.filter ∧
    (spec.matching.cardinality = .oneToOne →
      ∀ t ∈ earlier, t.key spec.matching.filter ≠ s.key spec.matching.filter)

instance (spec : JoinSpec) (earlier : List Sample) (s o : Sample) :
    Decidable (Matches spec earlier s o) :=
  inferInstanceAs (Decidable (_ ∧ _))

/-- A sample of the walked side with its partner of the other side. -/
structure Pair where
  many : Sample
  one : Sample
deriving DecidableEq

namespace Pair

/-- The numbers of the left and of the right operand. -/
def call (spec : JoinSpec) (p : Pair) : Float × Float :=
  match spec.matching.cardinality with
  | .oneToMany => (p.one.value, p.many.value)
  | _ => (p.many.value, p.one.value)

/-- The labels of what the pair yields. -/
def labels (spec : JoinSpec) (p : Pair) : LabelSet :=
  match spec.matching.cardinality with
  | .oneToOne => p.many.key spec.matching.filter
  | _ => p.many.labels.overridden p.one.labels spec.matching.included

/-- The number of what the pair yields: the combined one if the pair is kept,
and with `bool` 1 or 0 for whether it is. -/
def value? (spec : JoinSpec) (combine : Combine) (p : Pair) : Option Float :=
  match spec.returnBool, combine (p.call spec).1 (p.call spec).2 with
  | true, some _ => some 1.0
  | true, none => some 0.0
  | false, combined => combined

/-- The sample that the pair yields, if any. -/
def result? (spec : JoinSpec) (combine : Combine) (p : Pair) : Option Sample :=
  (p.value? spec combine).map (⟨p.labels spec, ·⟩)

end Pair

/-- The pairs that the samples of the walked side are matched in, after the
samples `earlier`. -/
def pairsAfter (spec : JoinSpec) (one : List Sample) :
    List Sample → List Sample → List Pair
  | _, [] => []
  | earlier, s :: many =>
      (one.filter (Matches spec earlier s)).map (⟨s, ·⟩) ++
        pairsAfter spec one (earlier ++ [s]) many

/-- All matched pairs, in the order of the walked side. -/
def pairs (spec : JoinSpec) (left right : InstantVector) : List Pair :=
  pairsAfter spec (oneSide spec left right) [] (manySide spec left right)

/-- The numbers that are combined for some pairs. -/
def calls (spec : JoinSpec) (ps : List Pair) : List (Float × Float) :=
  ps.map (·.call spec)

/-- The samples that some pairs yield. -/
def results (spec : JoinSpec) (combine : Combine) (ps : List Pair) : List Sample :=
  ps.filterMap (·.result? spec combine)

/-- The label sets of the samples that some pairs yield. -/
def resultLabels (spec : JoinSpec) (combine : Combine) (ps : List Pair) : List LabelSet :=
  (results spec combine ps).map (·.labels)

/-- Combines pairs in order, up to the first result whose labels are among
`done` or those of an earlier result. -/
def emit (spec : JoinSpec) (combine : Combine) (done : List LabelSet) :
    List Pair → List (Float × Float) × Except LabelSet (List Sample)
  | [] => ([], .ok [])
  | p :: ps =>
      match p.result? spec combine with
      | none =>
          let rest := emit spec combine done ps
          (p.call spec :: rest.1, rest.2)
      | some s =>
          if s.labels ∈ done then ([p.call spec], .error s.labels)
          else
            let rest := emit spec combine (done ++ [s.labels]) ps
            (p.call spec :: rest.1, rest.2.map (s :: ·))

/-- The keys of the side that is not walked. -/
def oneKeys (spec : JoinSpec) (left right : InstantVector) : List LabelSet :=
  (oneSide spec left right).map (·.key spec.matching.filter)

/-- The run of a join by nested loops. -/
def run (spec : JoinSpec) (combine : Combine) (left right : InstantVector) : JoinRun :=
  match firstRepeat? [] (oneKeys spec left right) with
  | some labels => ⟨[], .error ⟨labels, oneSideName spec⟩⟩
  | none =>
      let emitted := emit spec combine [] (pairs spec left right)
      ⟨emitted.1,
        match emitted.2 with
        | .error labels => .error ⟨labels, .result⟩
        | .ok samples => .ok ⟨right.time, samples⟩⟩

/-! ## Repeated elements -/

section FirstRepeat

variable {α : Type} [DecidableEq α] {seen xs : List α}

theorem firstRepeat?_eq_none_iff (hseen : seen.Nodup) :
    firstRepeat? seen xs = none ↔ (seen ++ xs).Nodup := by
  induction xs generalizing seen with
  | nil => simpa [firstRepeat?] using hseen
  | cons x xs ih =>
      rw [firstRepeat?]
      split
      · rename_i hx
        simp [List.nodup_middle, hx]
      · rename_i hx
        rw [ih (by simpa using hseen.concat hx), List.append_assoc, List.singleton_append]

theorem firstRepeat?_nil_eq_none_iff : firstRepeat? [] xs = none ↔ xs.Nodup :=
  firstRepeat?_eq_none_iff List.nodup_nil

theorem exists_firstRepeat?_eq_some (h : ¬ xs.Nodup) : ∃ x, firstRepeat? [] xs = some x :=
  Option.ne_none_iff_exists'.mp fun hnone ↦ h (firstRepeat?_nil_eq_none_iff.mp hnone)

theorem exists_of_firstRepeat?_eq_some {x : α} (hseen : seen.Nodup)
    (h : firstRepeat? seen xs = some x) :
    ∃ before after, xs = before ++ x :: after ∧ (seen ++ before).Nodup ∧
      x ∈ seen ++ before := by
  induction xs generalizing seen with
  | nil => simp [firstRepeat?] at h
  | cons y xs ih =>
      rw [firstRepeat?] at h
      split at h
      · rename_i hy
        obtain rfl : y = x := Option.some.inj h
        exact ⟨[], xs, rfl, by simpa using hseen, by simpa using hy⟩
      · rename_i hy
        have hseen' : (seen ++ [y]).Nodup := by simpa using hseen.concat hy
        obtain ⟨before, after, rfl, hnodup, hx⟩ := ih hseen' h
        exact ⟨y :: before, after, rfl, by simpa using hnodup, by simpa using hx⟩

end FirstRepeat

/-! ## Results of pairs -/

section Results

variable {spec : JoinSpec} {combine : Combine}

theorem Pair.labels_of_oneToOne (hcard : spec.matching.cardinality = .oneToOne) (p : Pair) :
    p.labels spec = p.many.key spec.matching.filter := by
  rw [labels, hcard]

theorem Pair.labels_of_ne_oneToOne (hcard : spec.matching.cardinality ≠ .oneToOne)
    (p : Pair) :
    p.labels spec = p.many.labels.overridden p.one.labels spec.matching.included := by
  rw [labels]
  split
  · contradiction
  · rfl

theorem resultLabels_cons_none {p : Pair} {ps : List Pair}
    (h : p.result? spec combine = none) :
    resultLabels spec combine (p :: ps) = resultLabels spec combine ps := by
  simp [resultLabels, results, h]

theorem resultLabels_cons_some {p : Pair} {ps : List Pair} {s : Sample}
    (h : p.result? spec combine = some s) :
    resultLabels spec combine (p :: ps) = s.labels :: resultLabels spec combine ps := by
  simp [resultLabels, results, h]

theorem resultLabels_append (ps qs : List Pair) :
    resultLabels spec combine (ps ++ qs) =
      resultLabels spec combine ps ++ resultLabels spec combine qs := by
  simp [resultLabels, results]

/-- Each result has the labels of its pair. -/
theorem resultLabels_sublist (ps : List Pair) :
    (resultLabels spec combine ps).Sublist (ps.map (·.labels spec)) := by
  induction ps with
  | nil => exact List.Sublist.slnil
  | cons p ps ih =>
      cases hp : p.value? spec combine with
      | none =>
          rw [resultLabels_cons_none (by rw [Pair.result?, hp, Option.map_none])]
          exact ih.cons _
      | some x =>
          rw [resultLabels_cons_some (by rw [Pair.result?, hp, Option.map_some])]
          exact ih.cons_cons _

/-- A result that repeats labels shows among all results. -/
theorem not_nodup_of_mem {before after : List Pair} {p : Pair} {s : Sample}
    (hp : p.result? spec combine = some s) (hs : s.labels ∈ resultLabels spec combine before) :
    ¬ (resultLabels spec combine (before ++ p :: after)).Nodup := by
  rw [resultLabels_append, resultLabels_cons_some hp, List.nodup_middle, List.nodup_cons]
  exact fun h ↦ h.1 (List.mem_append_left _ hs)

/-- Either the results have labels of their own, and pairs are combined to the
end, or there is a first result that repeats labels, and nothing after its pair
is combined. -/
theorem emit_cases (spec : JoinSpec) (combine : Combine) {done : List LabelSet}
    (hdone : done.Nodup) (ps : List Pair) :
    ((done ++ resultLabels spec combine ps).Nodup ∧
      emit spec combine done ps = (calls spec ps, .ok (results spec combine ps))) ∨
    ∃ before p after s, ps = before ++ p :: after ∧
      (done ++ resultLabels spec combine before).Nodup ∧
      p.result? spec combine = some s ∧
      s.labels ∈ done ++ resultLabels spec combine before ∧
      emit spec combine done ps = (calls spec (before ++ [p]), .error s.labels) := by
  -- `done` takes in the labels of each result, and stays without repetition
  induction ps generalizing done with
  | nil => exact .inl ⟨by simpa [resultLabels, results] using hdone, rfl⟩
  | cons p ps ih =>
      rw [emit]
      cases hp : p.result? spec combine with
      | none =>
          simp only [resultLabels_cons_none hp]
          rcases ih hdone with ⟨hnodup, h⟩ | ⟨before, q, after, s, rfl, hnodup, hq, hs, h⟩
          · exact .inl ⟨hnodup, by simp [h, calls, results, hp]⟩
          · refine .inr ⟨p :: before, q, after, s, rfl, ?_, hq, ?_, by simp [h, calls]⟩
            · rwa [resultLabels_cons_none hp]
            · rwa [resultLabels_cons_none hp]
      | some s =>
          simp only [resultLabels_cons_some hp]
          split
          · rename_i hs
            refine .inr ⟨[], p, ps, s, rfl, ?_, hp, ?_, rfl⟩
            · simpa [resultLabels, results] using hdone
            · simpa [resultLabels, results] using hs
          · rename_i hs
            have hdone' : (done ++ [s.labels]).Nodup := by simpa using hdone.concat hs
            rcases ih hdone' with ⟨hnodup, h⟩ | ⟨before, q, after, t, rfl, hnodup, hq, ht, h⟩
            · refine .inl ⟨by simpa using hnodup, ?_⟩
              simp [h, calls, results, hp, Except.map]
            · refine .inr ⟨p :: before, q, after, t, rfl, ?_, hq, ?_, ?_⟩
              · simpa [resultLabels_cons_some hp] using hnodup
              · simpa [resultLabels_cons_some hp] using ht
              · simp [h, calls, Except.map]

end Results

end NestedLoop

end VectorQuery
