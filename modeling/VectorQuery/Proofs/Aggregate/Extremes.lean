import VectorQuery.Proofs.Aggregate.Partition
import VectorQuery.Proofs.Join.Order
import VectorQuery.Proofs.Number.Order

/-!
# Largest and smallest numbers

A list is reduced to its largest or smallest number from left to right, in comparisons that
NaN has no part in.  What carries the loop is that the number so far stands for the part of
the list that has been seen: it is one of these numbers, with none beyond it, or NaN as long
as there has been no number (`Extreme.IsExtreme`).  It matters neither in which order the
numbers come, nor where NaN stands among them.
-/

namespace VectorQuery

open Number

/-- The largest of some numbers, or the smallest. -/
inductive Extreme where
  | largest
  | smallest
deriving DecidableEq, Repr

namespace Extreme

def op : Extreme → AggregationOp
  | .largest => .max
  | .smallest => .min

/-- The number `x` is larger than `y`, or smaller if it is about the smallest number. -/
def Beyond : Extreme → Float → Float → Prop
  | .largest, x, y => y < x
  | .smallest, x, y => x < y

instance : (e : Extreme) → (x y : Float) → Decidable (e.Beyond x y)
  | .largest, x, y => inferInstanceAs (Decidable (y < x))
  | .smallest, x, y => inferInstanceAs (Decidable (x < y))

variable {e : Extreme} {x y z r : Float}

theorem not_beyond_self (x : Float) : ¬ e.Beyond x x := by
  cases e <;> exact not_lt_self x

theorem not_beyond_of_beyond (hx : x.isNaN = false) (hy : y.isNaN = false)
    (h : e.Beyond x y) : ¬ e.Beyond y x := by
  cases e with
  | largest => exact not_lt_of_lt hy hx h
  | smallest => exact not_lt_of_lt hx hy h

theorem not_beyond_of_isNaN (hx : x.isNaN = true) : ¬ e.Beyond x y := by
  cases e with
  | largest => exact not_lt_of_isNaN_right hx
  | smallest => exact not_lt_of_isNaN_left hx

theorem not_beyond_trans (hx : x.isNaN = false) (hy : y.isNaN = false) (hz : z.isNaN = false)
    (hxy : ¬ e.Beyond x y) (hyz : ¬ e.Beyond y z) : ¬ e.Beyond x z := by
  cases e with
  | largest => exact not_lt_trans hz hy hx hyz hxy
  | smallest => exact not_lt_trans hx hy hz hxy hyz

/-- Numbers of which neither is beyond the other are equal. -/
theorem beq_of_not_beyond (hx : x.isNaN = false) (hy : y.isNaN = false)
    (hxy : ¬ e.Beyond x y) (hyx : ¬ e.Beyond y x) : (x == y) = true := by
  cases e with
  | largest => exact beq_of_not_lt hx hy hyx hxy
  | smallest => exact beq_of_not_lt hx hy hxy hyx

/-! ## Picking one of two numbers -/

/-- What a function has to do that picks one of two numbers.  Which of two equal numbers it
picks is left open. -/
structure Picks (e : Extreme) (pick : Float → Float → Float) : Prop where
  left {x y : Float} (hx : x.isNaN = false) (hy : y.isNaN = true) : pick x y = x
  right {x y : Float} (hx : x.isNaN = true) (hy : y.isNaN = false) : pick x y = y
  neither {x y : Float} (hx : x.isNaN = true) (hy : y.isNaN = true) : (pick x y).isNaN = true
  left_or_right {x y : Float} (hx : x.isNaN = false) (hy : y.isNaN = false) :
    pick x y = x ∨ pick x y = y
  not_beyond {x y : Float} (hx : x.isNaN = false) (hy : y.isNaN = false) :
    ¬ e.Beyond x (pick x y) ∧ ¬ e.Beyond y (pick x y)

def pick : Extreme → Float → Float → Float
  | .largest => larger
  | .smallest => smaller

theorem pick_eq (e : Extreme) (x y : Float) :
    e.pick x y = if x.isNaN then y else if e.Beyond y x then y else x := by
  cases e <;> rfl

theorem picks_pick (e : Extreme) : e.Picks e.pick where
  left hx hy := by rw [pick_eq, hx, if_neg Bool.false_ne_true, if_neg (not_beyond_of_isNaN hy)]
  right hx _ := by rw [pick_eq, if_pos hx]
  neither hx hy := by rw [pick_eq, if_pos hx, hy]
  left_or_right hx _ := by
    rw [pick_eq, hx, if_neg Bool.false_ne_true]
    split
    · exact .inr rfl
    · exact .inl rfl
  not_beyond hx hy := by
    rw [pick_eq, hx, if_neg Bool.false_ne_true]
    split
    case isTrue h => exact ⟨not_beyond_of_beyond hy hx h, not_beyond_self _⟩
    case isFalse h => exact ⟨not_beyond_self _, h⟩

theorem reduce_op (e : Extreme) : e.op.reduce = AggregationOp.reduceWith e.pick := by
  cases e <;> rfl

/-! ## The extreme of a list -/

/-- The number `r` stands for a list: it is one of its numbers, and none is beyond it, or it
is NaN because there are none. -/
structure IsExtreme (e : Extreme) (xs : List Float) (r : Float) : Prop where
  isNaN_iff : r.isNaN = true ↔ ∀ x ∈ xs, x.isNaN = true
  mem (hr : r.isNaN = false) : r ∈ xs
  not_beyond {x : Float} (hx : x ∈ xs) (hnumber : x.isNaN = false) : ¬ e.Beyond x r

variable {xs ys : List Float}

theorem IsExtreme.of_number (hr : r.isNaN = false) (hmem : r ∈ xs)
    (hbeyond : ∀ x ∈ xs, x.isNaN = false → ¬ e.Beyond x r) : e.IsExtreme xs r where
  isNaN_iff := by
    have hnumber := Bool.eq_false_iff.mp hr
    exact iff_of_false hnumber fun hall ↦ hnumber (hall r hmem)
  mem _ := hmem
  not_beyond := hbeyond _

theorem IsExtreme.of_isNaN (hr : r.isNaN = true) (hall : ∀ x ∈ xs, x.isNaN = true) :
    e.IsExtreme xs r where
  isNaN_iff := iff_of_true hr hall
  mem hnumber := absurd (hnumber.symm.trans hr) Bool.false_ne_true
  not_beyond hx _ := not_beyond_of_isNaN (hall _ hx)

/-- Where there is a number, a number stands for the list. -/
theorem IsExtreme.isNaN_eq_false (h : e.IsExtreme xs r) (hx : x ∈ xs)
    (hnumber : x.isNaN = false) : r.isNaN = false := by
  rw [Bool.eq_false_iff, ne_eq, h.isNaN_iff]
  exact fun hall ↦ Bool.eq_false_iff.mp hnumber (hall x hx)

theorem isExtreme_singleton (e : Extreme) (x : Float) : e.IsExtreme [x] x where
  isNaN_iff := by simp
  mem _ := List.mem_singleton_self x
  not_beyond hy _ := by
    rw [List.mem_singleton.mp hy]
    exact not_beyond_self x

section Pick

variable {pick : Float → Float → Float}

/-- One step: the pick of what stands for a list and of one more element stands for both. -/
theorem Picks.isExtreme_concat (hpick : e.Picks pick) (h : e.IsExtreme xs r) (x : Float) :
    e.IsExtreme (xs ++ [x]) (pick r x) := by
  cases hr : r.isNaN with
  | true =>
      have hall := h.isNaN_iff.mp hr
      cases hx : x.isNaN with
      | true =>
          exact .of_isNaN (hpick.neither hr hx)
            (List.forall_mem_append.mpr ⟨hall, List.forall_mem_singleton.mpr hx⟩)
      | false =>
          rw [hpick.right hr hx]
          exact .of_number hx (List.mem_concat_self)
            (List.forall_mem_append.mpr ⟨fun y hy _ ↦ not_beyond_of_isNaN (hall y hy),
              List.forall_mem_singleton.mpr fun _ ↦ not_beyond_self x⟩)
  | false =>
      have hmem := List.mem_append_left [x] (h.mem hr)
      cases hx : x.isNaN with
      | true =>
          rw [hpick.left hr hx]
          exact .of_number hr hmem
            (List.forall_mem_append.mpr ⟨fun y hy ↦ h.not_beyond hy,
              List.forall_mem_singleton.mpr fun _ ↦ not_beyond_of_isNaN hx⟩)
      | false =>
          obtain ⟨hbeyond, hbeyond'⟩ := hpick.not_beyond hr hx
          obtain ⟨hnumber, hpicked⟩ :
              (pick r x).isNaN = false ∧ pick r x ∈ xs ++ [x] := by
            rcases hpick.left_or_right hr hx with heq | heq <;> rw [heq]
            · exact ⟨hr, hmem⟩
            · exact ⟨hx, List.mem_concat_self⟩
          exact .of_number hnumber hpicked
            (List.forall_mem_append.mpr ⟨fun y hy hy' ↦
                not_beyond_trans hy' hr hnumber (h.not_beyond hy hy') hbeyond,
              List.forall_mem_singleton.mpr fun _ ↦ hbeyond'⟩)

/-- A run, by induction on the elements that are left. -/
theorem Picks.isExtreme_foldl (hpick : e.Picks pick) (h : e.IsExtreme xs r) (more : List Float) :
    e.IsExtreme (xs ++ more) (more.foldl pick r) := by
  induction more generalizing xs r with
  | nil => simpa using h
  | cons x more ih =>
      rw [List.foldl_cons, List.append_cons]
      exact ih (hpick.isExtreme_concat h x)

theorem Picks.isExtreme_reduceWith (hpick : e.Picks pick) (xs : List Float) :
    e.IsExtreme xs (AggregationOp.reduceWith pick xs) := by
  cases xs with
  | nil => exact .of_isNaN isNaN_nan nofun
  | cons x xs => exact hpick.isExtreme_foldl (isExtreme_singleton e x) xs

theorem isExtreme_reduce (e : Extreme) (xs : List Float) : e.IsExtreme xs (e.op.reduce xs) := by
  rw [reduce_op]
  exact (picks_pick e).isExtreme_reduceWith xs

/-- What stands for a list is the same number for the list in any order. -/
theorem IsExtreme.beq_of_perm {s : Float} (h : e.IsExtreme xs r) (h' : e.IsExtreme ys s)
    (hperm : xs.Perm ys) (hr : r.isNaN = false) : (r == s) = true := by
  have hmem : r ∈ ys := hperm.mem_iff.mp (h.mem hr)
  have hs := h'.isNaN_eq_false hmem hr
  have hmem' : s ∈ xs := hperm.mem_iff.mpr (h'.mem hs)
  exact beq_of_not_beyond hr hs (h'.not_beyond hmem hr) (h.not_beyond hmem' hs)

/-! ## NaN is passed over -/

theorem Picks.foldl_filter (hpick : e.Picks pick) (hr : r.isNaN = false) (xs : List Float) :
    (xs.filter (!·.isNaN)).foldl pick r = xs.foldl pick r := by
  induction xs generalizing r with
  | nil => rfl
  | cons x xs ih =>
      rw [List.filter_cons, List.foldl_cons]
      cases hx : x.isNaN with
      | true =>
          rw [hpick.left hr hx]
          exact ih hr
      | false =>
          have hnumber : (pick r x).isNaN = false := by
            rcases hpick.left_or_right hr hx with heq | heq <;> rwa [heq]
          exact ih hnumber

theorem Picks.reduceWith_cons_of_isNaN (hpick : e.Picks pick) (hx : x.isNaN = true)
    (xs : List Float) :
    AggregationOp.reduceWith pick (x :: xs) = AggregationOp.reduceWith pick xs := by
  cases xs with
  | nil => exact eq_nan_of_isNaN hx
  | cons y xs =>
      have hsecond : pick x y = y := by
        cases hy : y.isNaN with
        | true => rw [eq_nan_of_isNaN (hpick.neither hx hy), eq_nan_of_isNaN hy]
        | false => exact hpick.right hx hy
      rw [AggregationOp.reduceWith, List.foldl_cons, hsecond, AggregationOp.reduceWith]

theorem Picks.reduceWith_filter (hpick : e.Picks pick) (xs : List Float) :
    AggregationOp.reduceWith pick (xs.filter (!·.isNaN)) = AggregationOp.reduceWith pick xs := by
  induction xs with
  | nil => rfl
  | cons x xs ih =>
      rw [List.filter_cons]
      cases hx : x.isNaN with
      | true =>
          rw [hpick.reduceWith_cons_of_isNaN hx]
          exact ih
      | false => exact hpick.foldl_filter hx xs

end Pick

theorem reduce_filter (e : Extreme) (xs : List Float) :
    e.op.reduce (xs.filter (!·.isNaN)) = e.op.reduce xs := by
  rw [reduce_op]
  exact (picks_pick e).reduceWith_filter xs

end Extreme

/-! ## Samples that are passed over -/

/-- The same number, or the same samples at the same time, in any order. -/
inductive Value.Rearranged : Value → Value → Prop where
  | scalar (x : Float) : Rearranged (.scalar x) (.scalar x)
  | vector {v w : InstantVector} (h : v.Rearranged w) : Rearranged (.vector v) (.vector w)

namespace Group

variable {f : LabelFilter} {samples samples' : List Sample}

theorem keys_perm (h : samples.Perm samples') : (keys f samples).Perm (keys f samples') := by
  refine (List.perm_ext_iff_of_nodup (nodup_keys f _) (nodup_keys f _)).mpr fun labels ↦ ?_
  simp only [mem_keys, h.mem_iff]

theorem filter_numbers (p : Float → Bool) (labels : LabelSet) :
    (numbers f samples labels).filter p = numbers f (samples.filter (p ·.value)) labels := by
  rw [numbers, numbers, members, members, List.filter_map, List.filter_comm]
  rfl

end Group

/-- Samples with numbers that a reduction passes over can be anywhere in the vector: they
can bring a group forward, but make no difference to what it is reduced to. -/
theorem InstantVector.aggregate_rearranged {reduce : List Float → Float} {counts : Float → Bool}
    (hreduce : ∀ xs, reduce (xs.filter counts) = reduce xs) {v w : InstantVector}
    (h : v.Rearranged w)
    (hcounts : v.samples.filter (counts ·.value) = w.samples.filter (counts ·.value))
    (g : Grouping) : (v.aggregate g reduce).Rearranged (w.aggregate g reduce) := by
  cases hg : g.isUngrouped with
  | true =>
      have hvalues : v.values.filter counts = w.values.filter counts := by
        rw [values, values, List.filter_map, List.filter_map]
        exact congrArg _ hcounts
      rw [aggregate, aggregate, aggregateRun, aggregateRun, if_pos hg, if_pos hg, ← hreduce,
        hvalues, hreduce]
      exact .scalar _
  | false =>
      have hnumbers (labels : LabelSet) : reduce (Group.numbers g.filter v.samples labels) =
          reduce (Group.numbers g.filter w.samples labels) := by
        rw [← hreduce, Group.filter_numbers, hcounts, ← Group.filter_numbers, hreduce]
      rw [aggregate_eq_map_numbers v hg, aggregate_eq_map_numbers w hg, h.1]
      simp only [hnumbers]
      exact .vector ⟨rfl, (Group.keys_perm h.2).map _⟩

namespace Extreme

/-- The largest or smallest number of a list is NaN exactly if there is no number in the list.
Otherwise it equals one of them, and none is beyond it, so that it is the same number for the
list in any order.  In an aggregation, samples with NaN can therefore be anywhere: the groups
have the same largest or smallest numbers. -/
theorem reduce_extreme (e : Extreme) :
    (∀ xs, ((e.op.reduce xs).isNaN = true ↔ ∀ x ∈ xs, x.isNaN = true) ∧
      ((∃ x ∈ xs, x.isNaN = false) →
        (∃ x ∈ xs, (x == e.op.reduce xs) = true) ∧
        (∀ x ∈ xs, x.isNaN = false → ¬ e.Beyond x (e.op.reduce xs)) ∧
        ∀ ys, xs.Perm ys → (e.op.reduce xs == e.op.reduce ys) = true)) ∧
    ∀ v w : InstantVector, v.Rearranged w →
      v.samples.filter (!·.value.isNaN) = w.samples.filter (!·.value.isNaN) →
      ∀ g, (v.aggregate g e.op.reduce).Rearranged (w.aggregate g e.op.reduce) := by
  refine ⟨fun xs ↦ ?_, fun v w h hnumbers ↦
    InstantVector.aggregate_rearranged (reduce_filter e) h hnumbers⟩
  have hxs := isExtreme_reduce e xs
  refine ⟨hxs.isNaN_iff, fun ⟨x, hx, hnumber⟩ ↦ ?_⟩
  have hr := hxs.isNaN_eq_false hx hnumber
  have hself := hxs.beq_of_perm hxs (.refl xs) hr
  exact ⟨⟨_, hxs.mem hr, hself⟩, fun x ↦ hxs.not_beyond,
    fun ys hperm ↦ hxs.beq_of_perm (isExtreme_reduce e ys) hperm hr⟩

example : AggregationOp.max.reduce [nan, 7, nan, 3] = 7 ∧
    AggregationOp.min.reduce [nan, 7, nan, 3] = 3 := by
  decide

end Extreme

end VectorQuery
