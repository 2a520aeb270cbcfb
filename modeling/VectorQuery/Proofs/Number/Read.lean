import Mathlib
import VectorQuery.Number.Literal
import VectorQuery.Proofs.Number.Order
import VectorQuery.Proofs.Number.Shortest
import VectorQuery.Proofs.Number.Within

/-!
# Reading decimals

A decimal is read in steps: its coefficient is rounded, the power of ten is, and so is the
product or the quotient of the two.  What is read is the nearest number to some number within
nine roundings of the decimal, and to the decimal itself if neither its coefficient nor the
power needs rounding (`Decimal.value?_of_read?`).  A decimal that is written for a number
leads out of the range only if the number is one of the last three in it
(`Decimal.isSome_read?_of_lt`).
-/

namespace VectorQuery

namespace Number

/-! ## Powers of ten -/

theorem ten_pow_lt {n : Nat} (h : n ≤ 308) : (10 : ℚ) ^ n < 2 ^ (1024 : ℤ) * oneRounding := by
  have hpow : (10 : ℕ) ^ 308 + 2 ^ 971 < 2 ^ 1024 := by decide +kernel
  have hrounding : (2 : ℚ) ^ (1024 : ℤ) * oneRounding = 2 ^ (1024 : ℤ) - 2 ^ (971 : ℤ) := by
    rw [oneRounding, mul_sub, mul_one, ← zpow_add₀ (by norm_num)]
    norm_num
  rw [hrounding, lt_sub_iff_add_lt]
  calc (10 : ℚ) ^ n + 2 ^ (971 : ℤ) ≤ 10 ^ 308 + 2 ^ (971 : ℤ) := by
        gcongr
        norm_num
    _ < 2 ^ (1024 : ℤ) := by exact_mod_cast hpow

theorem le_of_ten_pow_lt {n : Nat} (h : (10 : ℚ) ^ n < 2 ^ (1024 : ℤ)) : n ≤ 308 := by
  by_contra hgt
  have hpow : (2 : ℕ) ^ 1024 < 10 ^ 309 := by decide +kernel
  have hlarge : (2 : ℚ) ^ (1024 : ℤ) < 10 ^ 309 := by exact_mod_cast hpow
  exact absurd h (hlarge.trans_le (pow_le_pow_right₀ (by norm_num) (by omega))).not_gt

theorem within_nearest_of_one_le {x : ℚ} (h : 1 ≤ x) : Within 1 x (nearest x) :=
  .nearest ((zpow_le_one_of_nonpos₀ (by norm_num) (by norm_num)).trans h)

theorem within_nearest_ten_pow (n : Nat) : Within 1 (10 ^ n) (nearest (10 ^ n)) :=
  within_nearest_of_one_le (one_le_pow₀ (by norm_num))

theorem nearest_ten_pow_pos (n : Nat) : 0 < nearest (10 ^ n) :=
  (within_nearest_ten_pow n).pos (by positivity)

theorem nearest_ten_pow_lt {n : Nat} (h : n ≤ 308) : nearest (10 ^ n) < 2 ^ (1024 : ℤ) := by
  have hright := (within_nearest_ten_pow n).right
  rw [pow_one] at hright
  exact lt_of_mul_lt_mul_right (hright.trans_lt (ten_pow_lt h)) oneRounding_pos.le

theorem value?_powerOfTen {n : Nat} (h : n ≤ 308) :
    value? (powerOfTen n) = some (nearest (10 ^ n)) := by
  have hfloat := Decimal.value?_toFloat (d := ⟨1, n⟩) (by rw [Nat.abs_cast]; omega)
  rw [Decimal.value, Nat.cast_one, one_mul, zpow_natCast, nearest?,
    abs_of_pos (nearest_ten_pow_pos n), if_pos (nearest_ten_pow_lt h)] at hfloat
  exact hfloat

/-! ## Coefficients -/

variable {a b : Float} {x : ℚ} {c n : Nat}

theorem within_nearest_natCast (h : 0 < c) : Within 1 c (nearest c) :=
  within_nearest_of_one_le (by exact_mod_cast h)

theorem one_le_nearest_natCast (h : 0 < c) : 1 ≤ nearest c := by
  have hpos : 0 < nearest c := (within_nearest_natCast h).pos (by exact_mod_cast h)
  obtain ⟨m, hm⟩ := exists_nearest_intCast c
  rw [Int.cast_natCast] at hm
  rw [hm] at hpos ⊢
  exact_mod_cast hpos

theorem abs_natCast_lt (h : c < UInt64.size) : |(c : ℚ)| < 2 ^ (64 : ℤ) := by
  rw [Nat.abs_cast]
  exact_mod_cast h

theorem nearest_natCast_lt (h : c < UInt64.size) : nearest c < 2 ^ (65 : ℤ) :=
  (le_abs_self _).trans_lt (abs_nearest_lt (abs_natCast_lt h) (by norm_num))

theorem value?_ofNat_of_lt (h : c < UInt64.size) : value? (Float.ofNat c) = some (nearest c) := by
  rw [value?_ofNat, nearest?_of_lt (lt_two_zpow (abs_natCast_lt h) (by norm_num))]

/-! ## Division by a power of ten -/

theorem nearest?_of_pos (hx : 0 < x) (h : x < 2 ^ (1023 : ℤ)) : nearest? x = some (nearest x) :=
  nearest?_of_lt (by rwa [abs_of_pos hx])

theorem half_le_nearest_ten_pow (n : Nat) : 1 / 2 ≤ nearest (10 ^ n) := by
  have hleft := (within_nearest_ten_pow n).left
  have hone : (1 : ℚ) ≤ 10 ^ n := one_le_pow₀ (by norm_num)
  calc (1 / 2 : ℚ) ≤ 1 * oneRounding ^ 1 := by norm_num [oneRounding]
    _ ≤ 10 ^ n * oneRounding ^ 1 :=
      mul_le_mul_of_nonneg_right hone (oneRounding_pow_pos 1).le
    _ ≤ nearest (10 ^ n) := hleft

theorem div_nearest_ten_pow_lt {k : ℤ} (h : x < 2 ^ k) (n : Nat) :
    x / nearest (10 ^ n) < 2 ^ (k + 1) := by
  rw [div_lt_iff₀ (nearest_ten_pow_pos n), zpow_add_one₀ (by norm_num), mul_assoc]
  refine h.trans_le (le_mul_of_one_le_right (by positivity) ?_)
  linarith [half_le_nearest_ten_pow n]

theorem value?_div_powerOfTen (ha : value? a = some x) (hx : 0 < x) (hlt : x < 2 ^ (1022 : ℤ))
    (hn : n ≤ 308) : value? (a / powerOfTen n) = some (nearest (x / nearest (10 ^ n))) := by
  have hpower := nearest_ten_pow_pos n
  rw [value?_div ha (value?_powerOfTen hn) hpower.ne',
    nearest?_of_pos (div_pos hx hpower) (div_nearest_ten_pow_lt hlt n)]

theorem beq_zero_of_value? (ha : value? a = some x) (hx : x ≠ 0) : (a == 0.0) = false := by
  have hnumber {b : Float} {y : ℚ} (hb : value? b = some y) : b.isNaN = false := by
    by_contra hnan
    rw [value?, unpack_of_isNaN (eq_true_of_ne_false hnan)] at hb
    cases hb
  have hzero : value? 0.0 = some 0 := by decide +kernel
  rw [Bool.eq_false_iff, Ne, beq_iff_place_eq (hnumber ha) (hnumber hzero), place, place,
    unpackedPlace_of_value? ha, unpackedPlace_of_value? hzero]
  exact fun h ↦ hx (WithTop.coe_injective (WithBot.coe_injective h))

theorem value?_divideByPowerOfTen_of_le (ha : value? a = some x) (hx : 0 < x)
    (hlt : x < 2 ^ (1022 : ℤ)) (hn : n ≤ 308) :
    value? (divideByPowerOfTen a n) = some (nearest (x / nearest (10 ^ n))) := by
  have hmax : maxPowerOfTen = 308 := rfl
  rw [divideByPowerOfTen, hmax, if_pos hn]
  exact value?_div_powerOfTen ha hx hlt hn

/-- After the first of two steps the number may be very small. -/
theorem within_nearest_div_largest (hone : 1 ≤ x) :
    Within 7 (x / 10 ^ 308) (nearest (x / nearest (10 ^ 308))) := by
  have hpower := nearest_ten_pow_pos 308
  have htiny : 2 ^ (-1024 : ℤ) ≤ x / nearest (10 ^ 308) := by
    rw [zpow_neg, le_div_iff₀ hpower, inv_mul_le_iff₀ (by positivity)]
    exact (nearest_ten_pow_lt le_rfl).le.trans (le_mul_of_one_le_right (by positivity) hone)
  have hquotient := (Within.refl x).div (within_nearest_ten_pow 308) (by linarith) (by positivity)
  exact hquotient.trans (.nearest_six htiny)

/-- What the division by a power of ten leads to: the nearest number to some other one that is
within some roundings of the quotient. -/
theorem exists_value?_divideByPowerOfTen (ha : value? a = some x) (hone : 1 ≤ x)
    (hlt : x < 2 ^ (65 : ℤ)) (hn : n ≤ 616) :
    ∃ r, value? (divideByPowerOfTen a n) = some (nearest r) ∧ Within 8 (x / 10 ^ n) r ∧
      (n ≤ 22 → r = x / 10 ^ n) := by
  have hpos : 0 < x := by linarith
  have hten (k : Nat) : (0 : ℚ) < 10 ^ k := by positivity
  by_cases hle : n ≤ 308
  · have hwithin := (Within.refl x).div (within_nearest_ten_pow n) hpos (hten n)
    refine ⟨_, value?_divideByPowerOfTen_of_le ha hpos (lt_two_zpow hlt (by norm_num)) hle,
      hwithin.mono (by norm_num) (div_pos hpos (hten n)), fun hn22 ↦ ?_⟩
    rw [nearest_eq_self_iff.mpr (representable_ten_pow hn22)]
  · -- the power is not finite, so that there are two steps
    have hmax : maxPowerOfTen = 308 := rfl
    have hstep := within_nearest_div_largest hone
    have hfirst : 0 < x / 10 ^ 308 := div_pos hpos (hten 308)
    have hwithin := hstep.div (within_nearest_ten_pow (n - 308)) hfirst (hten _)
    rw [div_div, ← pow_add, Nat.add_sub_cancel' (by omega)] at hwithin
    rw [divideByPowerOfTen, hmax, if_neg hle,
      if_neg (ne_true_of_eq_false (beq_zero_of_value? ha hpos.ne'))]
    refine ⟨_, value?_divideByPowerOfTen_of_le
      (value?_div_powerOfTen ha hpos (lt_two_zpow hlt (by norm_num)) le_rfl) (hstep.pos hfirst) ?_
      (by omega), hwithin, fun hn22 ↦ absurd hn22 (by omega)⟩
    have hquotient := div_nearest_ten_pow_lt hlt 308
    rw [← abs_of_pos (div_pos hpos (nearest_ten_pow_pos 308))] at hquotient
    exact lt_two_zpow ((le_abs_self _).trans_lt (abs_nearest_lt hquotient (by norm_num)))
      (by norm_num)

/-! ## Multiplication by a power of ten -/

theorem isFinite_iff_value? : a.isFinite = true ↔ (value? a).isSome := by
  rw [Option.isSome_iff_exists]
  exact ⟨exists_value?_of_isFinite, fun ⟨_, h⟩ ↦ isFinite_of_value? h⟩

theorem nearest?_eq_some_iff {y : ℚ} :
    nearest? x = some y ↔ |nearest x| < 2 ^ (1024 : ℤ) ∧ y = nearest x := by
  rw [nearest?, Option.ite_none_right_eq_some, Option.some.injEq, eq_comm (a := y)]

/-- The product with a power of ten, and when it is within the range. -/
theorem multiplyByPowerOfTen?_eq_some_iff (ha : value? a = some x) (hx : x ≠ 0) :
    multiplyByPowerOfTen? a n = some b ↔
      n ≤ 308 ∧ |nearest (x * nearest (10 ^ n))| < 2 ^ (1024 : ℤ) ∧ b = a * powerOfTen n := by
  have hmax : maxPowerOfTen = 308 := rfl
  rw [multiplyByPowerOfTen?, hmax, if_neg (ne_true_of_eq_false (beq_zero_of_value? ha hx))]
  split
  case isTrue hle =>
    have hproduct := value?_mul ha (value?_powerOfTen hle)
    rw [Option.ite_none_right_eq_some, isFinite_iff_value?, hproduct, Option.some.injEq,
      and_iff_right hle, eq_comm (a := b), Option.isSome_iff_exists]
    simp only [nearest?_eq_some_iff, exists_and_left, exists_eq, and_true]
  case isFalse hgt => exact iff_of_false nofun fun h ↦ hgt h.1

theorem value?_multiplyByPowerOfTen? (ha : value? a = some x) (hx : x ≠ 0)
    (h : multiplyByPowerOfTen? a n = some b) :
    value? b = some (nearest (x * nearest (10 ^ n))) := by
  obtain ⟨hle, hlt, rfl⟩ := (multiplyByPowerOfTen?_eq_some_iff ha hx).mp h
  exact (value?_mul ha (value?_powerOfTen hle)).trans (if_pos hlt)

theorem ten_pow_le_mul (h : 0 < c) (n : Nat) : 10 ^ n ≤ (c : ℚ) * 10 ^ n :=
  le_mul_of_one_le_left (by positivity) (by exact_mod_cast h)

theorem within_nearest_mul_ten_pow (h : 0 < c) (n : Nat) :
    Within 1 (c * 10 ^ n) (nearest (c * 10 ^ n)) :=
  within_nearest_of_one_le ((one_le_pow₀ (by norm_num)).trans (ten_pow_le_mul h n))

/-- Rounding the factors before the product leads to about the same. -/
theorem within_nearest_mul_nearest (h : 0 < c) (n : Nat) :
    Within 4 (nearest (c * 10 ^ n)) (nearest (nearest c * nearest (10 ^ n))) := by
  have hc : (0 : ℚ) < c := by exact_mod_cast h
  have hone := one_le_nearest_natCast h
  have hsmall : (2 : ℚ) ^ (-1022 : ℤ) ≤ nearest c * nearest (10 ^ n) := by
    calc (2 : ℚ) ^ (-1022 : ℤ) ≤ 2 ^ (-1 : ℤ) := zpow_le_zpow_right₀ (by norm_num) (by norm_num)
      _ = 1 * (1 / 2) := by norm_num
      _ ≤ nearest c * nearest (10 ^ n) :=
        mul_le_mul hone (half_le_nearest_ten_pow n) (by norm_num) (by linarith)
  have hfactors := (within_nearest_natCast h).mul (within_nearest_ten_pow n) hc (by positivity)
  exact ((within_nearest_mul_ten_pow h n).symm.trans hfactors).trans (.nearest hsmall)

theorem le_of_nearest_mul_lt (h : 0 < c)
    (hlt : nearest (c * 10 ^ n) < 2 ^ (1024 : ℤ) * oneRounding) : n ≤ 308 := by
  have hleft := (within_nearest_mul_ten_pow h n).left
  rw [pow_one] at hleft
  exact le_of_ten_pow_lt ((ten_pow_le_mul h n).trans_lt
    (lt_of_mul_lt_mul_right (hleft.trans_lt hlt) oneRounding_pos.le))

/-- The product with a power of ten is within the range unless the exact one is next to its
end. -/
theorem isSome_multiplyByPowerOfTen? (h : 0 < c) (hfits : c < UInt64.size)
    (hlt : nearest (c * 10 ^ n) < 2 ^ (1024 : ℤ) * oneRounding ^ 4) :
    (multiplyByPowerOfTen? (Float.ofNat c) n).isSome := by
  have hwithin := within_nearest_mul_nearest h n
  have hcoefficient := one_le_nearest_natCast h
  have hpos : 0 < nearest (nearest c * nearest (10 ^ n)) :=
    hwithin.pos ((within_nearest_mul_ten_pow h n).pos
      ((ten_pow_le_mul h n).trans_lt' (by positivity)))
  have hone : oneRounding ^ 4 ≤ oneRounding :=
    pow_le_of_le_one oneRounding_pos.le oneRounding_le_one (by norm_num)
  have hn := le_of_nearest_mul_lt h
    (hlt.trans_le (mul_le_mul_of_nonneg_left hone (by positivity)))
  have hinside : |nearest (nearest c * nearest (10 ^ n))| < 2 ^ (1024 : ℤ) := by
    rw [abs_of_pos hpos]
    exact lt_of_mul_lt_mul_right (hwithin.right.trans_lt hlt) (oneRounding_pow_pos 4).le
  rw [Option.isSome_iff_exists]
  exact ⟨_, (multiplyByPowerOfTen?_eq_some_iff (value?_ofNat_of_lt hfits) (by linarith)).mpr
    ⟨hn, hinside, rfl⟩⟩

end Number

/-! ## Decimals -/

namespace Decimal

open Number

variable {d : Decimal} {y : Float}

theorem value_pos (hc : 0 < d.coefficient) : 0 < d.value :=
  mul_pos (by exact_mod_cast hc) (by positivity)

/-- What a decimal is read as: the nearest number to some other one that is within nine
roundings of the decimal. -/
theorem value?_of_read? (hc : 0 < d.coefficient) (hfits : d.coefficient < UInt64.size)
    (he : -616 ≤ d.exponent) (h : d.read? = some y) :
    ∃ r, value? y = some (nearest r) ∧ Within 9 d.value r ∧
      (Representable d.coefficient → |d.exponent| ≤ 22 → r = d.value) := by
  have hcoefficient := value?_ofNat_of_lt hfits
  have hone := one_le_nearest_natCast hc
  have hwithin := within_nearest_natCast hc
  have hcpos : (0 : ℚ) < d.coefficient := by exact_mod_cast hc
  obtain ⟨c, e⟩ := d
  dsimp only at *
  rw [read?] at h
  dsimp only at h
  rw [value]
  dsimp only
  split at h
  case isTrue hnonneg =>
    obtain ⟨n, rfl⟩ := Int.eq_ofNat_of_zero_le hnonneg
    rw [Int.toNat_natCast] at h
    have hvalue := value?_multiplyByPowerOfTen? hcoefficient (by linarith) h
    have hproduct := hwithin.mul (within_nearest_ten_pow n) hcpos (by positivity)
    rw [zpow_natCast]
    refine ⟨_, hvalue, hproduct.mono (by norm_num) (by positivity), fun hrepresentable hsmall ↦ ?_⟩
    rw [Nat.abs_cast] at hsmall
    rw [nearest_eq_self_iff.mpr hrepresentable,
      nearest_eq_self_iff.mpr (representable_ten_pow (by omega))]
  case isFalse hneg =>
    obtain ⟨n, rfl⟩ : ∃ n : ℕ, e = -n := ⟨(-e).toNat, by omega⟩
    rw [neg_neg, Int.toNat_natCast] at h
    obtain rfl := Option.some.inj h
    obtain ⟨r, hvalue, hquotient, hexact⟩ := exists_value?_divideByPowerOfTen hcoefficient
      hone (nearest_natCast_lt hfits) (n := n) (by omega)
    have hfirst := hwithin.div (.refl (10 ^ n)) hcpos (by positivity)
    rw [zpow_neg, zpow_natCast, ← div_eq_mul_inv]
    refine ⟨r, hvalue, hfirst.trans hquotient, fun hrepresentable hsmall ↦ ?_⟩
    rw [abs_neg, Nat.abs_cast] at hsmall
    rw [hexact (by omega), nearest_eq_self_iff.mpr hrepresentable]

/-- A tenth of ten times a whole number is exact. -/
theorem exists_read?_mul_ten {m : Nat} (h : m * 10 ≤ 2 ^ 53) :
    ∃ y, (Decimal.mk (m * 10) (-1)).read? = some y ∧ value? y = some (m : ℚ) := by
  have hten : |((m * 10 : ℕ) : ℤ)| ≤ 2 ^ 53 := by
    rw [Nat.abs_cast]
    exact_mod_cast h
  have hm : |(m : ℤ)| ≤ 2 ^ 53 := by
    rw [Nat.abs_cast]
    omega
  have hcoefficient : value? (Float.ofNat (m * 10)) = some (((m * 10 : ℕ) : ℤ) : ℚ) :=
    (value?_ofNat _).trans (nearest?_intCast hten)
  have hpower : value? (powerOfTen 1) = some 10 := by
    rw [value?_powerOfTen (by norm_num),
      nearest_eq_self_iff.mpr (representable_ten_pow (by norm_num)), pow_one]
  have hdivide : divideByPowerOfTen (Float.ofNat (m * 10)) 1 =
      Float.ofNat (m * 10) / powerOfTen 1 := by
    rw [divideByPowerOfTen, if_pos (by decide)]
  have hquotient : (((m * 10 : ℕ) : ℤ) : ℚ) / 10 = (m : ℤ) := by
    push_cast
    ring
  refine ⟨_, rfl, ?_⟩
  change value? (divideByPowerOfTen (Float.ofNat (m * 10)) 1) = _
  rw [hdivide, value?_div hcoefficient hpower (by norm_num), hquotient, nearest?_intCast hm,
    Int.cast_natCast]

variable {x : ℚ}

/-- What is written for a number is within the range again, unless the number is one of the
last three before the end. -/
theorem isSome_read?_of_lt (h : d.IsWrittenFor x)
    (hlt : x < 2 ^ (1024 : ℤ) * oneRounding ^ 4) : d.read?.isSome := by
  obtain ⟨hnearest, hc, hle, -⟩ := h
  obtain ⟨c, e⟩ := d
  rw [read?]
  dsimp only at *
  split
  case isTrue hnonneg =>
    obtain ⟨n, rfl⟩ := Int.eq_ofNat_of_zero_le hnonneg
    rw [value, zpow_natCast] at hnearest
    rw [← hnearest] at hlt
    rw [Int.toNat_natCast]
    exact isSome_multiplyByPowerOfTen? hc (hle.trans_lt (by decide)) hlt
  case isFalse => rfl

end Decimal

end VectorQuery
