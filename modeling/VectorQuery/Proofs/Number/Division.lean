import Mathlib
import VectorQuery.Proofs.Number.Operations

/-!
# Quotients of binary64 numbers

A quotient is found as a whole part, at a place no higher than that of its last digit, and
what the division by it leaves.  So it is rounded to the nearest number, once
(`Number.value?_div`).
-/

namespace VectorQuery.Number

open Float.Model (UnpackedFloat totalExponent)
open Float.Model.Format (binary64)
open Float.Model.UnpackedFloat

/-- The first digit of a quotient stands where those of the two numbers say, or one place
behind. -/
theorem log_sub_log_le_log_div {x y : ℚ} (hx : 0 < x) (hy : 0 < y) :
    Int.log 2 x - Int.log 2 y - 1 ≤ Int.log 2 (x / y) := by
  have hlo : (2 : ℚ) ^ Int.log 2 x ≤ x := Int.zpow_log_le_self (by norm_num) hx
  have hhi : y < 2 ^ (Int.log 2 y + 1) := Int.lt_zpow_succ_log_self (by norm_num) y
  rw [← Int.zpow_le_iff_le_log (by norm_num) (div_pos hx hy), le_div_iff₀ hy]
  calc (2 : ℚ) ^ (Int.log 2 x - Int.log 2 y - 1) * y
      ≤ 2 ^ (Int.log 2 x - Int.log 2 y - 1) * 2 ^ (Int.log 2 y + 1) :=
        mul_le_mul_of_nonneg_left hhi.le (by positivity)
    _ = 2 ^ Int.log 2 x := by
        rw [← zpow_add₀ (by norm_num)]
        congr 1
        ring
    _ ≤ x := hlo

/-- No digit of the quotient stands above the place that its whole part is found at. -/
theorem targetExponent_sub_le_lastPlace_div {m n : Nat} (hm : 0 < m) (hn : 0 < n) (e f : ℤ) :
    binary64.targetExponent (totalExponent m e - totalExponent n f) ≤
      lastPlace (m * 2 ^ e / (n * 2 ^ f)) := by
  have hx : (0 : ℚ) < m * 2 ^ e := by positivity
  have hy : (0 : ℚ) < n * 2 ^ f := by positivity
  have hlog := log_sub_log_le_log_div hx hy
  rw [log_dyadic hm, log_dyadic hn] at hlog
  have hminimum : binary64.minExponent = -1074 := by decide
  rw [lastPlace, abs_of_pos (div_pos hx hy), Float.Model.Format.targetExponent, totalExponent,
    totalExponent, hminimum]
  simp only [Float.Model.Format.mantissaBits]
  omega

/-- The whole part of a quotient at a place, and what is left. -/
theorem represents_divCore {m n : Nat} (hn : 0 < n) (e f : ℤ) :
    Represents
      (.ofMantissaAndAccuracy (divCore binary64 m e n f).1 (divCore binary64 m e n f).2.2)
      (m * 2 ^ e / (n * 2 ^ f) / 2 ^ (divCore binary64 m e n f).2.1) := by
  simp only [divCore]
  generalize hplace : min (e - f) _ = place
  obtain ⟨d, hd⟩ := Int.le.dest (show place ≤ e - f by omega)
  have hshift : (e - f - place).toNat = d := by omega
  have hvalue : (m : ℚ) * 2 ^ e / (n * 2 ^ f) / 2 ^ place = ((m <<< d : ℕ) : ℚ) / n := by
    have he : e = d + (f + place) := by omega
    rw [he, zpow_add₀ (by norm_num), zpow_add₀ (by norm_num), Nat.shiftLeft_eq, zpow_natCast]
    push_cast
    field_simp
  rw [hshift, hvalue]
  exact .fraction _ hn

theorem apply_one_mul_div (s t : Sign) (x y : ℚ) :
    ((s.apply 1 : ℤ) * x) / ((t.apply 1 : ℤ) * y) = ((s / t).apply 1 : ℤ) * (x / y) := by
  have hsign : (((s / t).apply 1 : ℤ) : ℚ) = (s.apply 1 : ℤ) / (t.apply 1 : ℤ) := by
    have hmul : (s / t).apply 1 = s.apply 1 * t.apply 1 := by
      cases s <;> cases t <;> rfl
    rw [hmul, Int.cast_mul]
    cases t <;> simp [Sign.apply, div_neg]
  rw [mul_div_mul_comm, hsign]

theorem rounded_div {u v : UnpackedFloat} {x y : ℚ} (hx : unpackedValue? u = some x)
    (hy : unpackedValue? v = some y) (hy0 : y ≠ 0) :
    Rounded (UnpackedFloat.div binary64 u v) (x / y) := by
  obtain ⟨t, -, rfl⟩ | ⟨t, n, f, hn, rfl, rfl⟩ := zero_or_finite hy
  · exact absurd rfl hy0
  obtain ⟨s, rfl, rfl⟩ | ⟨s, m, e, hm, rfl, rfl⟩ := zero_or_finite hx
  · exact ⟨by simp [UnpackedFloat.div, unpackedValue?], trivial⟩
  · have hplace := targetExponent_sub_le_lastPlace_div hm hn e f
    rw [apply_mul_zpow, apply_mul_zpow, apply_one_mul_div]
    exact rounded_roundWithAccuracy (s / t) (by positivity) (represents_divCore hn e f)
      ((min_le_right _ _).trans hplace)

variable {a b : Float} {x y : ℚ}

theorem value?_div (ha : value? a = some x) (hb : value? b = some y) (hy : y ≠ 0) :
    value? (a / b) = nearest? (x / y) :=
  value?_ofModel_pack (rounded_div ha hb hy)

end VectorQuery.Number
