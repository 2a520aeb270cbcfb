import Mathlib
import VectorQuery.Number.Decimal
import VectorQuery.Proofs.Number.Division

/-!
# The number that a decimal names

The binary64 number of a decimal is found in one operation on whole numbers, a product or a
quotient, so that there is one rounding (`Decimal.value?_toFloat`).
-/

namespace VectorQuery

open Number
open Float.Model (UnpackedFloat)
open Float.Model.Format (binary64)
open Float.Model.UnpackedFloat

namespace Number

/-! ## Powers of ten that need no rounding -/

theorem representable_ten_pow {n : Nat} (h : n ≤ 22) : Representable (10 ^ n) := by
  refine ⟨5 ^ n, n, ?_, by omega, ?_⟩
  · calc |(5 : ℤ) ^ n| = 5 ^ n := abs_of_pos (by positivity)
      _ ≤ 5 ^ 22 := pow_le_pow_right₀ (by norm_num) h
      _ < 2 ^ 53 := by norm_num
  · rw [zpow_natCast]
    push_cast
    rw [← mul_pow]
    norm_num

/-- What the table of powers holds. -/
theorem exactlyRepresentablePowersOfTen_eq (n : Fin 23) :
    Float.exactlyRepresentablePowersOfTen[n] =
      .ofModel (.pack (.normalize binary64 (10 ^ n.val) 0 .positive)) := by
  revert n
  decide +kernel

theorem value?_exactlyRepresentablePowersOfTen (n : Fin 23) :
    value? Float.exactlyRepresentablePowersOfTen[n] = some (10 ^ n.val) := by
  obtain ⟨n, hn⟩ := n
  have h : n ≤ 22 := Nat.le_of_lt_succ hn
  have hpower : (((10 ^ n : ℤ) : ℚ) * 2 ^ (0 : ℤ)) = 10 ^ n := by
    rw [zpow_zero, mul_one, Int.cast_pow, Int.cast_ofNat]
  have hlt : |(10 : ℚ) ^ n| < 2 ^ (1023 : ℤ) := by
    calc |(10 : ℚ) ^ n| = 10 ^ n := abs_of_pos (by positivity)
      _ ≤ 10 ^ 22 := pow_le_pow_right₀ (by norm_num) h
      _ < 2 ^ (80 : ℤ) := by norm_num
      _ ≤ 2 ^ (1023 : ℤ) := zpow_le_zpow_right₀ (by norm_num) (by norm_num)
  have hvalue := value?_ofModel_pack (rounded_normalize (10 ^ n) 0 .positive)
  rw [hpower, nearest?_of_representable (representable_ten_pow h) hlt] at hvalue
  rw [← hvalue]
  exact congrArg value? (exactlyRepresentablePowersOfTen_eq ⟨n, hn⟩)

end Number

namespace Decimal

/-- The number that a decimal is. -/
def value (d : Decimal) : ℚ := d.coefficient * 10 ^ d.exponent

/-! ## Conversion in one operation -/

theorem rounded_ofScientific (m : Nat) {e : ℤ} (hlo : -2048 ≤ e) (hhi : e ≤ 2048) :
    Rounded (UnpackedFloat.ofScientific binary64 m e) (m * 10 ^ e) := by
  have hbits : (2 : ℤ) ^ binary64.exponentBits = 2048 := by decide
  rw [UnpackedFloat.ofScientific]
  split
  case isTrue hzero => exact ⟨by simp [unpackedValue?, hzero], trivial⟩
  case isFalse hzero =>
    have hm : 0 < m := Nat.pos_of_ne_zero hzero
    rw [hbits, if_neg (by omega), if_neg (by omega)]
    split
    case isTrue he =>
      obtain ⟨n, rfl⟩ := Int.eq_ofNat_of_zero_le he
      have hshift : 2 ^ 52 ≤ m <<< 53 := by
        rw [Nat.shiftLeft_eq]
        omega
      have hvalue : (((m <<< 53 : ℕ) : ℤ) : ℚ) * 2 ^ (-53 : ℤ) *
          (((10 ^ n : ℕ) : ℤ) * 2 ^ (0 : ℤ)) = m * 10 ^ (n : ℤ) := by
        rw [Nat.shiftLeft_eq, zpow_natCast]
        push_cast
        norm_num
        ring
      have hpower : 0 < 10 ^ n := by positivity
      have hplace : (-53 : ℤ) + 0 ≤ lastPlace (((m <<< 53 * 10 ^ n : ℕ) : ℚ) * 2 ^ (-53 + 0 : ℤ)) :=
        le_lastPlace (Nat.mul_pos (by omega) hpower) (.inl (log2_mul_of_le_left hshift hpower))
      rw [← hvalue]
      exact rounded_mul_finite hplace
    case isFalse he =>
      obtain ⟨n, rfl⟩ : ∃ n : ℕ, e = -n := ⟨(-e).toNat, by omega⟩
      have hvalue : (m : ℚ) * 10 ^ (-n : ℤ) =
          ((m : ℤ) * 2 ^ (0 : ℤ)) / (((10 ^ n : ℕ) : ℤ) * 2 ^ (0 : ℤ)) := by
        rw [zpow_neg, zpow_natCast, ← div_eq_mul_inv]
        push_cast
        norm_num
      rw [hvalue]
      simp only [neg_neg, Int.toNat_natCast]
      exact rounded_div rfl rfl (by positivity)

variable {d : Decimal}

theorem value?_ofScientific_positive (m n : Nat) (h : n ≤ 2048) :
    value? (Float.ofScientific m false n) = nearest? (m * 10 ^ n) := by
  rw [Float.ofScientific]
  split
  case isTrue hsmall =>
    have hm := value?_toFloat_toUInt64 hsmall.1.le
    have hpower := value?_exactlyRepresentablePowersOfTen ⟨n, Nat.lt_succ_of_le hsmall.2⟩
    exact value?_mul hm hpower
  case isFalse =>
    have hrounded := rounded_ofScientific m (e := n) (by omega) (by omega)
    rw [← zpow_natCast]
    exact value?_ofModel_pack hrounded

theorem value?_ofScientific_negative (m n : Nat) (h : n ≤ 2048) :
    value? (Float.ofScientific m true n) = nearest? (m * 10 ^ (-n : ℤ)) := by
  rw [Float.ofScientific]
  split
  case isTrue hsmall =>
    have hm := value?_toFloat_toUInt64 hsmall.1.le
    have hpower := value?_exactlyRepresentablePowersOfTen ⟨n, Nat.lt_succ_of_le hsmall.2⟩
    rw [zpow_neg, zpow_natCast, ← div_eq_mul_inv]
    exact value?_div hm hpower (by positivity)
  case isFalse =>
    have hrounded := rounded_ofScientific m (e := -n) (by omega) (by omega)
    have he : Int.negOfNat n = -n := Int.negOfNat_eq
    rw [← he] at hrounded
    rw [← he]
    exact value?_ofModel_pack hrounded

/-- A decimal names the binary64 number nearest to it. -/
theorem value?_toFloat (h : |d.exponent| ≤ 2048) : value? d.toFloat = nearest? d.value := by
  obtain ⟨m, e⟩ := d
  rw [abs_le] at h
  dsimp only at h
  rw [toFloat, value]
  dsimp only
  split
  case isTrue he =>
    obtain ⟨n, rfl⟩ := Int.eq_ofNat_of_zero_le he
    rw [zpow_natCast]
    exact value?_ofScientific_positive m n (by omega)
  case isFalse he =>
    obtain ⟨n, rfl⟩ : ∃ n : ℕ, e = -n := ⟨(-e).toNat, by omega⟩
    rw [neg_neg, Int.toNat_natCast]
    exact value?_ofScientific_negative m n (by omega)

end Decimal

namespace Number

/-! ## Whole numbers -/

theorem value?_ofNat (n : Nat) : value? (Float.ofNat n) = nearest? n := by
  have hvalue := Decimal.value?_ofScientific_positive n 0 (by norm_num)
  rwa [pow_zero, mul_one] at hvalue

/-- A whole number up to `2 ^ 53` has itself as its value. -/
theorem value?_ofInt {n : ℤ} (h : |n| ≤ 2 ^ 53) : value? (Float.ofInt n) = some (n : ℚ) := by
  rw [← nearest?_intCast h]
  cases n with
  | ofNat n => exact value?_ofNat n
  | negSucc n =>
    have hn : |((n + 1 : ℕ) : ℤ)| ≤ 2 ^ 53 := by rwa [← abs_neg]
    have hnat : value? (Float.ofNat (n + 1)) = some (((n + 1 : ℕ) : ℤ) : ℚ) :=
      (value?_ofNat (n + 1)).trans (nearest?_intCast hn)
    rw [nearest?_intCast h, Int.cast_negSucc, ← Int.cast_natCast]
    exact value?_neg hnat

end Number

end VectorQuery
