import Mathlib
import VectorQuery.Proofs.Number.Nearest

/-!
# Numbers within some roundings of each other

Two positive numbers are within `k` roundings of each other if neither of them becomes larger
than the other when the 2⁻⁵³ part is taken away from it `k` times.  One rounding keeps within
one, unless the number is very small; products and quotients add up what their parts have.
-/

namespace VectorQuery.Number

/-- What is left of one when the 2⁻⁵³ part is taken away. -/
def oneRounding : ℚ := 1 - 2 ^ (-53 : ℤ)

theorem oneRounding_pos : 0 < oneRounding := by
  norm_num [oneRounding]

theorem oneRounding_le_one : oneRounding ≤ 1 := by
  norm_num [oneRounding]

theorem oneRounding_pow_pos (k : ℕ) : 0 < oneRounding ^ k := pow_pos oneRounding_pos k

/-- Several together take away no more than their sum. -/
theorem le_oneRounding_pow (k : ℕ) : 1 - k * 2 ^ (-53 : ℤ) ≤ oneRounding ^ k := by
  have hbernoulli := one_add_mul_le_pow (a := (-2 ^ (-53 : ℤ) : ℚ)) (by norm_num) k
  rw [oneRounding, sub_eq_add_neg, sub_eq_add_neg, ← mul_neg]
  exact hbernoulli

/-- Two numbers are within `k` roundings of each other. -/
structure Within (k : ℕ) (x y : ℚ) : Prop where
  left : x * oneRounding ^ k ≤ y
  right : y * oneRounding ^ k ≤ x

namespace Within

variable {x y z x' y' : ℚ} {j k : ℕ}

theorem refl (x : ℚ) : Within 0 x x := ⟨by simp, by simp⟩

theorem symm (h : Within k x y) : Within k y x := ⟨h.right, h.left⟩

theorem pos (h : Within k x y) (hx : 0 < x) : 0 < y :=
  (mul_pos hx (oneRounding_pow_pos k)).trans_le h.left

theorem trans (h : Within j x y) (h' : Within k y z) : Within (j + k) x z := by
  constructor
  · rw [pow_add, ← mul_assoc]
    exact (mul_le_mul_of_nonneg_right h.left (oneRounding_pow_pos k).le).trans h'.left
  · rw [add_comm, pow_add, ← mul_assoc]
    exact (mul_le_mul_of_nonneg_right h'.right (oneRounding_pow_pos j).le).trans h.right

theorem mul (h : Within j x y) (h' : Within k x' y') (hx : 0 < x) (hx' : 0 < x') :
    Within (j + k) (x * x') (y * y') := by
  constructor
  · rw [pow_add, mul_mul_mul_comm]
    exact mul_le_mul h.left h'.left (mul_pos hx' (oneRounding_pow_pos k)).le (h.pos hx).le
  · rw [pow_add, mul_mul_mul_comm]
    exact mul_le_mul h.right h'.right (mul_pos (h'.pos hx') (oneRounding_pow_pos k)).le hx.le

theorem inv (h : Within k x y) (hx : 0 < x) : Within k x⁻¹ y⁻¹ := by
  constructor
  · rw [inv_mul_le_iff₀ hx, le_mul_inv_iff₀ (h.pos hx), mul_comm]
    exact h.right
  · rw [inv_mul_le_iff₀ (h.pos hx), le_mul_inv_iff₀ hx, mul_comm]
    exact h.left

theorem div (h : Within j x y) (h' : Within k x' y') (hx : 0 < x) (hx' : 0 < x') :
    Within (j + k) (x / x') (y / y') := by
  rw [div_eq_mul_inv, div_eq_mul_inv]
  exact h.mul (h'.inv hx') hx (inv_pos.mpr hx')

theorem mono (h : Within j x y) (hjk : j ≤ k) (hx : 0 < x) : Within k x y := by
  have hpow := pow_le_pow_of_le_one oneRounding_pos.le oneRounding_le_one hjk
  exact ⟨(mul_le_mul_of_nonneg_left hpow hx.le).trans h.left,
    (mul_le_mul_of_nonneg_left hpow (h.pos hx).le).trans h.right⟩

theorem nearest (h : 2 ^ (-1022 : ℤ) ≤ x) : Within 1 x (nearest x) := by
  have hpos : 0 < x := lt_of_lt_of_le (by positivity) h
  have herr := abs_nearest_sub_le_mul_of_le (x := x) (by rwa [abs_of_pos hpos])
  rw [abs_of_pos hpos, abs_le] at herr
  generalize Number.nearest x = y at *
  constructor <;> norm_num [oneRounding] at herr ⊢ <;> linarith

/-- Below that it still keeps within six for a while. -/
theorem nearest_six (h : 2 ^ (-1024 : ℤ) ≤ x) : Within 6 x (Number.nearest x) := by
  have hpos : 0 < x := lt_of_lt_of_le (by positivity) h
  have herr := abs_nearest_sub_le_mul x
  have htiny : (2 : ℚ) ^ (-1075 : ℤ) ≤ x * 2 ^ (-51 : ℤ) := by
    have hpow : (2 : ℚ) ^ (-1075 : ℤ) = 2 ^ (-1024 : ℤ) * 2 ^ (-51 : ℤ) := by
      rw [← zpow_add₀ (by norm_num)]
      norm_num
    rw [hpow]
    exact mul_le_mul_of_nonneg_right h (by positivity)
  rw [abs_of_pos hpos, abs_le] at herr
  generalize Number.nearest x = y at *
  generalize (2 : ℚ) ^ (-1075 : ℤ) = tiny at *
  constructor <;> norm_num [oneRounding] at herr htiny ⊢ <;> linarith

end Within

/-- Numbers within nine roundings of each other are rounded to numbers that differ by the
2⁻⁴⁹ part at most, or twice the smallest number. -/
theorem Within.abs_nearest_sub_nearest_le {x y : ℚ} (h : Within 9 x y) (hx : 0 < x) :
    |Number.nearest y - Number.nearest x| ≤
      |Number.nearest x| * 2 ^ (-49 : ℤ) + 2 ^ (-1073 : ℤ) := by
  have hy := h.pos hx
  have hnine := le_oneRounding_pow 9
  have hleft := (mul_le_mul_of_nonneg_left hnine hx.le).trans h.left
  have hright := (mul_le_mul_of_nonneg_left hnine hy.le).trans h.right
  have herrx := abs_nearest_sub_le_mul x
  have herry := abs_nearest_sub_le_mul y
  have hself := le_abs_self (Number.nearest x)
  have htiny : (2 : ℚ) ^ (-1073 : ℤ) = 2 ^ (-1075 : ℤ) * 4 := by
    rw [show (-1073 : ℤ) = -1075 + 2 by norm_num, zpow_add₀ (by norm_num)]
    norm_num
  have hpos : (0 : ℚ) < 2 ^ (-1075 : ℤ) := by positivity
  rw [htiny]
  rw [abs_of_pos hx, abs_le] at herrx
  rw [abs_of_pos hy, abs_le] at herry
  generalize Number.nearest x = a at *
  generalize Number.nearest y = b at *
  generalize (2 : ℚ) ^ (-1075 : ℤ) = tiny at *
  rw [abs_le]
  norm_num at hleft hright herrx herry ⊢
  constructor <;> linarith

end VectorQuery.Number
