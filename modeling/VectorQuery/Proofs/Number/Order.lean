import Mathlib
import VectorQuery.Proofs.Number.Operations

/-!
# The order of binary64 numbers

Apart from NaN, numbers are in the order of the places that they have among the rational
numbers with an infinity at either end.  Two zeros share a place; other numbers do not.
-/

namespace VectorQuery.Number

open Float.Model (UnpackedFloat)
open Float.Model.UnpackedFloat

/-- Where a number taken apart stands: at its value, or at an end.  NaN has no place, and
is put at the beginning. -/
def unpackedPlace : UnpackedFloat → WithBot (WithTop ℚ)
  | .infinity .positive => ↑(⊤ : WithTop ℚ)
  | u => (unpackedValue? u).elim ⊥ fun x ↦ ↑(x : WithTop ℚ)

/-- Where a number stands. -/
def place (a : Float) : WithBot (WithTop ℚ) := unpackedPlace a.toModel.unpack

variable {u v : UnpackedFloat}

theorem unpackedPlace_of_value? {x : ℚ} (hx : unpackedValue? u = some x) :
    unpackedPlace u = ↑(x : WithTop ℚ) := by
  obtain ⟨s, rfl, rfl⟩ | ⟨s, m, e, hm, rfl, rfl⟩ := zero_or_finite hx <;> rfl

theorem unpackedPlace_infinity_negative : unpackedPlace (.infinity .negative) = ⊥ := rfl

theorem unpackedPlace_infinity_positive :
    unpackedPlace (.infinity .positive) = ↑(⊤ : WithTop ℚ) := rfl

/-- What is a number is an infinity or has a value. -/
theorem infinity_or_value (hu : u ≠ .notANumber) :
    u = .infinity .negative ∨ u = .infinity .positive ∨ ∃ x, unpackedValue? u = some x := by
  cases u with
  | infinity s => cases s <;> simp
  | notANumber => exact absurd rfl hu
  | zero s => exact .inr (.inr ⟨_, rfl⟩)
  | finite s m e hm => exact .inr (.inr ⟨_, rfl⟩)

theorem compare_coe_coe (x y : ℚ) :
    compare (↑(x : WithTop ℚ) : WithBot (WithTop ℚ)) ↑(y : WithTop ℚ) = compare x y := by
  have hcoe := (WithBot.coe_strictMono.comp (WithTop.coe_strictMono (α := ℚ))).cmp_map_eq x y
  rwa [cmp_eq_compare, cmp_eq_compare] at hcoe

/-- Numbers taken apart are compared by their places. -/
theorem compare_eq_compare_place (hu : Canonical u) (hv : Canonical v) (hu' : u ≠ .notANumber)
    (hv' : v ≠ .notANumber) :
    u.compare v = some (compare (unpackedPlace u) (unpackedPlace v)) := by
  rcases infinity_or_value hu' with rfl | rfl | ⟨x, hx⟩
  · rw [unpackedPlace_infinity_negative]
    rcases infinity_or_value hv' with rfl | rfl | ⟨y, hy⟩
    · rw [unpackedPlace_infinity_negative, compare_eq_iff_eq.mpr rfl]
      rfl
    · rw [unpackedPlace_infinity_positive, compare_lt_iff_lt.mpr (WithBot.bot_lt_coe _)]
      rfl
    · rw [unpackedPlace_of_value? hy, compare_lt_iff_lt.mpr (WithBot.bot_lt_coe _)]
      obtain ⟨t, rfl, -⟩ | ⟨t, n, f, hn, rfl, -⟩ := zero_or_finite hy <;> rfl
  · rw [unpackedPlace_infinity_positive]
    rcases infinity_or_value hv' with rfl | rfl | ⟨y, hy⟩
    · rw [unpackedPlace_infinity_negative, compare_gt_iff_gt.mpr (WithBot.bot_lt_coe _)]
      rfl
    · rw [unpackedPlace_infinity_positive, compare_eq_iff_eq.mpr rfl]
      rfl
    · rw [unpackedPlace_of_value? hy,
        compare_gt_iff_gt.mpr (WithBot.coe_lt_coe.mpr (WithTop.coe_lt_top y))]
      obtain ⟨t, rfl, -⟩ | ⟨t, n, f, hn, rfl, -⟩ := zero_or_finite hy <;> rfl
  · rw [unpackedPlace_of_value? hx]
    rcases infinity_or_value hv' with rfl | rfl | ⟨y, hy⟩
    · rw [unpackedPlace_infinity_negative, compare_gt_iff_gt.mpr (WithBot.bot_lt_coe _)]
      obtain ⟨s, rfl, -⟩ | ⟨s, m, e, hm, rfl, -⟩ := zero_or_finite hx <;> rfl
    · rw [unpackedPlace_infinity_positive,
        compare_lt_iff_lt.mpr (WithBot.coe_lt_coe.mpr (WithTop.coe_lt_top x))]
      obtain ⟨s, rfl, -⟩ | ⟨s, m, e, hm, rfl, -⟩ := zero_or_finite hx <;> rfl
    · rw [compare_eq_some hu hv hx hy, unpackedPlace_of_value? hy, compare_coe_coe]

variable {a b : Float}

theorem unpack_compare_eq (ha : a.isNaN = false) (hb : b.isNaN = false) :
    a.toModel.unpack.compare b.toModel.unpack = some (compare (place a) (place b)) := by
  have hnumber {c : Float} (hc : c.isNaN = false) : c.toModel.unpack ≠ .notANumber :=
    fun h ↦ Bool.false_ne_true (hc.symm.trans (isNaN_iff.mpr h))
  exact compare_eq_compare_place (canonical_unpack _) (canonical_unpack _) (hnumber ha) (hnumber hb)

theorem lt_iff_lt_unpack : a < b ↔ a.toModel.unpack.lt b.toModel.unpack = true :=
  decide_eq_true_iff

theorem lt_iff_place_lt (ha : a.isNaN = false) (hb : b.isNaN = false) :
    a < b ↔ place a < place b := by
  rw [lt_iff_lt_unpack, UnpackedFloat.lt, unpack_compare_eq ha hb, beq_iff_eq, Option.some.injEq,
    compare_lt_iff_lt]

theorem beq_iff_place_eq (ha : a.isNaN = false) (hb : b.isNaN = false) :
    (a == b) = true ↔ place a = place b := by
  change a.toModel.unpack.beq b.toModel.unpack = true ↔ _
  rw [UnpackedFloat.beq, unpack_compare_eq ha hb, beq_iff_eq, Option.some.injEq,
    compare_eq_iff_eq]

/-! ## NaN -/

theorem unpack_of_isNaN (ha : a.isNaN = true) : a.toModel.unpack = .notANumber :=
  isNaN_iff.mp ha

theorem not_lt_of_isNaN_left (ha : a.isNaN = true) : ¬ a < b := by
  rw [lt_iff_lt_unpack, unpack_of_isNaN ha]
  exact Bool.false_ne_true

theorem not_lt_of_isNaN_right (hb : b.isNaN = true) : ¬ a < b := by
  rw [lt_iff_lt_unpack, unpack_of_isNaN hb]
  cases a.toModel.unpack with
  | infinity s => cases s <;> exact Bool.false_ne_true
  | notANumber => exact Bool.false_ne_true
  | zero s => exact Bool.false_ne_true
  | finite s m e hm => exact Bool.false_ne_true

theorem isNaN_nan : nan.isNaN = true := by decide

/-- There is only one NaN. -/
theorem eq_nan_of_isNaN (ha : a.isNaN = true) : a = nan := by
  have hnan {c : Float} (hc : c.isNaN = true) : c = Float.nan := by
    rwa [Float.isNaN_eq_decide_eq_nan, decide_eq_true_iff] at hc
  rw [hnan ha, hnan isNaN_nan]

/-! ## Numbers of which one is not less -/

theorem not_lt_self (a : Float) : ¬ a < a := by
  cases ha : a.isNaN with
  | false =>
      rw [lt_iff_place_lt ha ha]
      exact lt_irrefl _
  | true => exact not_lt_of_isNaN_left ha

theorem not_lt_of_lt (ha : a.isNaN = false) (hb : b.isNaN = false) (h : a < b) : ¬ b < a := by
  rw [lt_iff_place_lt ha hb] at h
  rw [lt_iff_place_lt hb ha]
  exact h.not_gt

theorem not_lt_trans {c : Float} (ha : a.isNaN = false) (hb : b.isNaN = false)
    (hc : c.isNaN = false) (hab : ¬ a < b) (hbc : ¬ b < c) : ¬ a < c := by
  rw [lt_iff_place_lt ha hb, not_lt] at hab
  rw [lt_iff_place_lt hb hc, not_lt] at hbc
  rw [lt_iff_place_lt ha hc, not_lt]
  exact hbc.trans hab

theorem beq_of_not_lt (ha : a.isNaN = false) (hb : b.isNaN = false) (hab : ¬ a < b)
    (hba : ¬ b < a) : (a == b) = true := by
  rw [lt_iff_place_lt ha hb, not_lt] at hab
  rw [lt_iff_place_lt hb ha, not_lt] at hba
  exact (beq_iff_place_eq ha hb).mpr (le_antisymm hba hab)

end VectorQuery.Number
