import Mathlib
import VectorQuery.Instant

/-!
# Instants from whole numbers

A whole number of milliseconds or seconds is clamped twice on the way to an instant: its
nanoseconds are, and then their sum with those from 1900 to 1970.  Together this is one
clamping, to a range that is not symmetric (`Instant.sinceReference_ofUnix_clamp`): downwards
it ends with the nanoseconds, upwards with the instants.  All else follows from this, for any
unit of time.
-/

namespace VectorQuery

theorem Nanoseconds.count_clamp (n : ℤ) : (clamp n).count = min ⊔ n ⊓ max := by
  have hrange := min_le_max
  rw [clamp]
  split
  · split <;> dsimp only [last] <;> omega
  · dsimp only [first]
    omega

namespace Instant

open Nanoseconds (perMillisecond perSecond perCentury)

/-- Instants are in the order of their nanoseconds. -/
instance : PartialOrder Instant where
  le s t := s.sinceReference.count ≤ t.sinceReference.count
  lt s t := s.sinceReference.count < t.sinceReference.count
  le_refl _ := le_rfl
  le_trans _ _ _ := le_trans
  lt_iff_le_not_ge _ _ := lt_iff_le_not_ge
  le_antisymm _ _ h h' := Instant.ext (Nanoseconds.ext (le_antisymm h h'))

theorem le_iff {s t : Instant} : s ≤ t ↔ s.sinceReference.count ≤ t.sinceReference.count :=
  .rfl

theorem lt_iff {s t : Instant} : s < t ↔ s.sinceReference.count < t.sinceReference.count :=
  .rfl

/-! ## The range of unix times -/

/-- The nanoseconds since 1970 that an instant can be at. -/
def unixRange : Set ℤ := Set.Icc Nanoseconds.min (Nanoseconds.max - unixEpoch)

/-- The nearest nanoseconds in that range. -/
def nearestInRange (n : ℤ) : ℤ := Nanoseconds.min ⊔ n ⊓ (Nanoseconds.max - unixEpoch)

variable {m n : ℤ}

theorem nearestInRange_of_mem (h : n ∈ unixRange) : nearestInRange n = n := by
  rw [nearestInRange, min_eq_left h.2, max_eq_right h.1]

theorem nearestInRange_of_le (h : n ≤ Nanoseconds.min) : nearestInRange n = Nanoseconds.min :=
  max_eq_left ((min_le_left _ _).trans h)

theorem nearestInRange_of_ge (h : Nanoseconds.max - unixEpoch ≤ n) :
    nearestInRange n = Nanoseconds.max - unixEpoch := by
  have hrange : Nanoseconds.min ≤ Nanoseconds.max - unixEpoch := by decide +kernel
  rw [nearestInRange, min_eq_right h, max_eq_right hrange]

theorem nearestInRange_mono (h : m ≤ n) : nearestInRange m ≤ nearestInRange n :=
  max_le_max_left _ (min_le_min_right _ h)

/-! ## Clamping twice -/

/-- Clamping before and after the nanoseconds up to 1970 are added is clamping once. -/
theorem sinceReference_ofUnix_clamp (n : ℤ) :
    (ofUnix (.clamp n)).sinceReference.count = unixEpoch + nearestInRange n := by
  rw [ofUnix, Nanoseconds.count_clamp, Nanoseconds.count_clamp, nearestInRange]
  unfold unixEpoch Nanoseconds.min Nanoseconds.max perSecond perCentury
  omega

theorem sinceUnix_ofUnix_clamp (n : ℤ) :
    (ofUnix (.clamp n)).sinceUnix.count = nearestInRange n := by
  rw [sinceUnix, sinceReference_ofUnix_clamp, add_sub_cancel_left, Nanoseconds.count_clamp,
    nearestInRange]
  unfold unixEpoch Nanoseconds.min Nanoseconds.max perSecond perCentury
  omega

/-- Instants are found from whole numbers of a unit of time, given in nanoseconds: exactly,
as far as the range goes, and in order.  What lies before it is at the first instant that is
reached, and what lies behind it at the last one. -/
structure Counts (unit : ℤ) (f : ℤ → Instant) : Prop where
  sinceUnix_eq (t : ℤ) : (f t).sinceUnix.count = nearestInRange (t * unit)
  monotone : Monotone f
  strictMonoOn : StrictMonoOn f {t | t * unit ∈ unixRange}
  eq_first {t : ℤ} (h : t * unit ≤ Nanoseconds.min) :
    (f t).sinceReference.count = unixEpoch + Nanoseconds.min
  eq_last {t : ℤ} (h : Nanoseconds.max - unixEpoch ≤ t * unit) :
    (f t).sinceReference.count = Nanoseconds.max

theorem counts_ofUnix_clamp {unit : ℤ} (hunit : 0 < unit) :
    Counts unit fun t ↦ ofUnix (.clamp (t * unit)) where
  sinceUnix_eq t := sinceUnix_ofUnix_clamp (t * unit)
  monotone s t h := by
    have hle := nearestInRange_mono (mul_le_mul_of_nonneg_right h hunit.le)
    simpa only [le_iff, sinceReference_ofUnix_clamp, add_le_add_iff_left] using hle
  strictMonoOn s hs t ht h := by
    have hlt := mul_lt_mul_of_pos_right h hunit
    simpa only [lt_iff, sinceReference_ofUnix_clamp, add_lt_add_iff_left,
      nearestInRange_of_mem hs, nearestInRange_of_mem ht] using hlt
  eq_first h := by rw [sinceReference_ofUnix_clamp, nearestInRange_of_le h]
  eq_last h := by rw [sinceReference_ofUnix_clamp, nearestInRange_of_ge h, add_sub_cancel]

/-- The instant at a whole number of milliseconds or seconds, of any size, is exact as long
as it is in the range, and then no two are the same; beyond it, all are at the end of the
range.  Seconds lead to the same instants as a thousand times as many milliseconds. -/
theorem ofUnix_exact_and_saturating :
    Counts perMillisecond ofUnixMilliseconds ∧ Counts perSecond ofUnixSeconds ∧
      ∀ s, ofUnixSeconds s = ofUnixMilliseconds (1000 * s) := by
  refine ⟨counts_ofUnix_clamp (by decide), counts_ofUnix_clamp (by decide), fun s ↦ ?_⟩
  have hunits : 1000 * s * perMillisecond = s * perSecond := by
    unfold perMillisecond perSecond
    omega
  rw [ofUnixMilliseconds, hunits, ofUnixSeconds]

/-- Numbers of 64 bits go beyond the range on either side. -/
example : (ofUnixMilliseconds (-2 ^ 63)).sinceReference.count = unixEpoch + Nanoseconds.min ∧
    ofUnixMilliseconds (2 ^ 63 - 1) = ⟨.last⟩ := by
  decide +kernel

end Instant

end VectorQuery
