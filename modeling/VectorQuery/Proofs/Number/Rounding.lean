import Mathlib
import VectorQuery.Number.Arithmetic
import VectorQuery.Proofs.Number.Nearest

/-!
# Binary64 operations round to the nearest

The value of a binary64 number is a rational number, unless it is NaN or an
infinity.  A number taken apart is in canonical form: the mantissa has 53 digits,
or fewer at the smallest exponent.

Operations lead to a mantissa and an exponent, and to what the digits behind them
tell: less than a half, a half or more (`Number.Represents`).  Rounding these leads
to the canonical form of `Number.nearest` (`Number.rounded_roundWithAccuracy`).
-/

namespace VectorQuery.Number

open Float.Model (UnpackedFloat totalExponent)
open Float.Model.Format (binary64)
open Float.Model.UnpackedFloat

/-! ## Values -/

/-- The value of a number taken apart; NaN and the infinities have none. -/
def unpackedValue? : UnpackedFloat → Option ℚ
  | .zero _ => some 0
  | .finite sign m e _ => some (sign.apply m * 2 ^ e)
  | .infinity _ => none
  | .notANumber => none

/-- The value of a binary64 number. -/
def value? (x : Float) : Option ℚ := unpackedValue? x.toModel.unpack

/-- What has a value is a zero, or has a mantissa and an exponent. -/
theorem zero_or_finite {u : UnpackedFloat} {x : ℚ} (hx : unpackedValue? u = some x) :
    (∃ sign, u = .zero sign ∧ x = 0) ∨
      ∃ sign m e, ∃ hm : 0 < m, u = .finite sign m e hm ∧ x = (sign.apply m : ℤ) * 2 ^ e := by
  cases u with
  | infinity sign => cases hx
  | notANumber => cases hx
  | zero sign => exact .inl ⟨sign, rfl, (Option.some.inj hx).symm⟩
  | finite sign m e hm => exact .inr ⟨sign, m, e, hm, rfl, (Option.some.inj hx).symm⟩

/-- The mantissa has 53 digits, or the exponent is the smallest. -/
def Canonical : UnpackedFloat → Prop
  | .finite _ m e _ => m < 2 ^ 53 ∧ -1074 ≤ e ∧ (2 ^ 52 ≤ m ∨ e = -1074)
  | _ => True

theorem abs_signed (sign : Sign) (m : Nat) (e : ℤ) :
    |((sign.apply m : ℤ) : ℚ) * 2 ^ e| = m * 2 ^ e := by
  have hpos : (0 : ℚ) < 2 ^ e := by positivity
  cases sign with
  | negative =>
    rw [Sign.apply, abs_mul, abs_of_pos hpos, Int.cast_neg, abs_neg, Int.cast_natCast, Nat.abs_cast]
  | positive => rw [Sign.apply, abs_mul, abs_of_pos hpos, Int.cast_natCast, Nat.abs_cast]

theorem representable_of_canonical {u : UnpackedFloat} {x : ℚ} (h : Canonical u)
    (hx : unpackedValue? u = some x) : Representable x := by
  obtain ⟨sign, rfl, rfl⟩ | ⟨sign, m, e, hm, rfl, rfl⟩ := zero_or_finite hx
  · exact ⟨0, 0, by norm_num, by norm_num, by simp⟩
  · refine ⟨sign.apply m, e, ?_, h.2.1, rfl⟩
    have hlt := h.1
    cases sign with
    | negative => rw [Sign.apply, abs_neg, Nat.abs_cast]; exact_mod_cast hlt
    | positive => rw [Sign.apply, Nat.abs_cast]; exact_mod_cast hlt

/-! ## The digits that are dropped -/

/-- A quotient is its whole part and a fraction. -/
theorem natCast_div_natCast (m : Nat) {n : Nat} (hn : 0 < n) :
    (m : ℚ) / n = (m / n : ℕ) + (m % n : ℕ) / n := by
  have hnq : (n : ℚ) ≠ 0 := by exact_mod_cast hn.ne'
  have hsplit : (m : ℚ) = n * (m / n : ℕ) + (m % n : ℕ) := by
    exact_mod_cast (Nat.div_add_mod m n).symm
  rw [div_eq_iff hnq, add_mul, div_mul_cancel₀ _ hnq, mul_comm, ← hsplit]

/-- What the mantissa, the round bit and the sticky bit tell of a number: the
whole part, and whether the rest is 0, below a half, a half or above. -/
def Represents : ExtendedMantissa → ℚ → Prop
  | ⟨m, false, false⟩, x => x = m
  | ⟨m, false, true⟩, x => m < x ∧ x < m + 1 / 2
  | ⟨m, true, false⟩, x => x = m + 1 / 2
  | ⟨m, true, true⟩, x => m + 1 / 2 < x ∧ x < m + 1

namespace Represents

variable {em : ExtendedMantissa} {x : ℚ}

theorem exact (m : Nat) : Represents (.ofMantissaAndAccuracy m .exact) m := rfl

/-- The three are enough to find the nearest whole number. -/
theorem roundedMantissa (h : Represents em x) : (em.roundedMantissa : ℤ) = nearestEven x := by
  obtain ⟨m, round, sticky⟩ := em
  cases round <;> cases sticky
  case false.false =>
    obtain rfl : x = ((m : ℤ) : ℚ) := h
    exact (nearestEven_intCast m).symm
  case false.true =>
    obtain ⟨hlo, hhi⟩ := h
    refine (nearestEven_eq ?_).symm
    change |x - ((m : ℤ) : ℚ)| < 1 / 2
    rw [abs_lt]
    push_cast
    constructor <;> linarith
  case true.false =>
    obtain rfl : x = ((m : ℤ) : ℚ) + 1 / 2 := h
    change ((m + m % 2 : ℕ) : ℤ) = _
    rw [nearestEven_add_half]
    by_cases hm : Even (m : ℤ)
    · rw [if_pos hm]
      rw [Int.even_iff] at hm
      omega
    · rw [if_neg hm]
      rw [Int.even_iff] at hm
      omega
  case true.true =>
    obtain ⟨hlo, hhi⟩ := h
    refine (nearestEven_eq ?_).symm
    change |x - ((m + 1 : ℕ) : ℤ)| < 1 / 2
    rw [abs_lt]
    push_cast
    constructor <;> linarith

/-- What is dropped is less than one. -/
theorem bounds (h : Represents em x) : (em.mantissa : ℚ) ≤ x ∧ x < em.mantissa + 1 := by
  obtain ⟨m, round, sticky⟩ := em
  cases round <;> cases sticky <;> simp only [Represents] at h ⊢ <;> constructor <;> linarith

/-- What a division leaves is told by the accuracy of its whole part. -/
theorem fraction (m : Nat) {n : Nat} (hn : 0 < n) :
    Represents (.ofMantissaAndAccuracy (m / n) (accuracyOfFraction (m % n) n)) (m / n) := by
  have hnq : (0 : ℚ) < n := by exact_mod_cast hn
  have hmod : ((m % n : ℕ) : ℚ) < n := by exact_mod_cast Nat.mod_lt m hn
  rw [natCast_div_natCast m hn, accuracyOfFraction]
  split
  case isTrue hzero =>
    rw [hzero, Nat.cast_zero, zero_div, add_zero]
    exact rfl
  case isFalse hzero =>
    have hpos : (0 : ℚ) < (m % n : ℕ) / n :=
      div_pos (by exact_mod_cast Nat.pos_of_ne_zero hzero) hnq
    have hone : ((m % n : ℕ) : ℚ) / n < 1 := (div_lt_one hnq).mpr hmod
    rcases lt_trichotomy (2 * (m % n)) n with hlt | heq | hgt
    · rw [compare_lt_iff_lt.mpr hlt]
      have hhalf : ((m % n : ℕ) : ℚ) / n < 1 / 2 := by
        rw [div_lt_div_iff₀ hnq two_pos, one_mul, mul_comm]
        exact_mod_cast hlt
      exact ⟨lt_add_of_pos_right _ hpos, add_lt_add_right hhalf _⟩
    · rw [compare_eq_iff_eq.mpr heq]
      have hhalf : ((m % n : ℕ) : ℚ) / n = 1 / 2 := by
        rw [div_eq_div_iff hnq.ne' two_ne_zero, one_mul, mul_comm]
        exact_mod_cast heq
      exact congrArg _ hhalf
    · rw [compare_gt_iff_gt.mpr hgt]
      have hhalf : (1 : ℚ) / 2 < ((m % n : ℕ) : ℚ) / n := by
        rw [div_lt_div_iff₀ two_pos hnq, one_mul, mul_comm ((m % n : ℕ) : ℚ)]
        exact_mod_cast hgt
      exact ⟨add_lt_add_right hhalf _, add_lt_add_right hone _⟩

theorem shiftRightOne (h : Represents em x) : Represents em.shiftRightOne (x / 2) := by
  obtain ⟨m, round, sticky⟩ := em
  have hm : (m : ℚ) = 2 * (m / 2 : ℕ) + (m % 2 : ℕ) := by exact_mod_cast (Nat.div_add_mod m 2).symm
  rcases Nat.mod_two_eq_zero_or_one m with hmod | hmod <;> rw [hmod] at hm <;>
    cases round <;> cases sticky <;>
    simp only [Represents, ExtendedMantissa.shiftRightOne, hmod, Bool.or_false, Bool.or_true,
      Nat.cast_zero, Nat.cast_one, bne_self_eq_false, Nat.reduceBNe] at h hm ⊢
  case inl.false.false => linarith
  case inr.false.false => linarith
  all_goals exact ⟨by linarith, by linarith⟩

theorem shiftRight (h : Represents em x) (n : Nat) : Represents (em >>> n) (x / 2 ^ n) := by
  change Represents (n.repeat ExtendedMantissa.shiftRightOne em) _
  induction n with
  | zero => simpa [Nat.repeat] using h
  | succ n ih =>
    rw [Nat.repeat, pow_succ, ← div_div]
    exact ih.shiftRightOne

end Represents

/-! ## Rounding a mantissa and an exponent -/

theorem targetExponent_eq (m : Nat) (e : ℤ) :
    binary64.targetExponent (totalExponent m e) = max ((m.log2 : ℤ) + e - 52) (-1074) := by
  simp only [Float.Model.Format.targetExponent, totalExponent, Float.Model.Format.mantissaBits,
    Float.Model.Format.minExponent]
  norm_num
  omega

/-- A number has as many digits as its whole part at any place, if this is not zero. -/
theorem log_of_bounds {m : Nat} (hm : 0 < m) {e : ℤ} {x : ℚ} (hlo : m * 2 ^ e ≤ x)
    (hhi : x < (m + 1) * 2 ^ e) : Int.log 2 x = (m.log2 : ℤ) + e := by
  have hpos : (0 : ℚ) < 2 ^ e := by positivity
  have hlo2 : (2 : ℚ) ^ m.log2 ≤ m := by exact_mod_cast Nat.log2_self_le hm.ne'
  have hhi2 : (m : ℚ) + 1 ≤ 2 ^ (m.log2 + 1) := by exact_mod_cast Nat.lt_log2_self
  apply log_eq
  · rw [zpow_add₀ (by norm_num), zpow_natCast]
    exact (mul_le_mul_of_nonneg_right hlo2 hpos.le).trans hlo
  · rw [add_right_comm, zpow_add₀ (by norm_num)]
    exact hhi.trans_le (mul_le_mul_of_nonneg_right (by exact_mod_cast hhi2) hpos.le)

theorem log_dyadic {m : Nat} (hm : 0 < m) (e : ℤ) :
    Int.log 2 ((m : ℚ) * 2 ^ e) = (m.log2 : ℤ) + e :=
  log_of_bounds hm le_rfl (mul_lt_mul_of_pos_right (lt_add_one _) (by positivity))

/-- The exponent that the rounding aims at is the place of the last digit. -/
theorem targetExponent_eq_lastPlace {m : Nat} (hm : 0 < m) (e : ℤ) :
    binary64.targetExponent (totalExponent m e) = lastPlace ((m : ℚ) * 2 ^ e) := by
  rw [targetExponent_eq, lastPlace, abs_of_pos (by positivity), log_dyadic hm]

/-- So it is if only the whole part is known.  Where that is zero, the number is below the
place of the smallest one. -/
theorem targetExponent_of_represents {m : Nat} {e : ℤ} {accuracy : Accuracy} {x : ℚ}
    (hx : 0 < x) (hm : Represents (.ofMantissaAndAccuracy m accuracy) (x / 2 ^ e))
    (he : e ≤ lastPlace x) : binary64.targetExponent (totalExponent m e) = lastPlace x := by
  have hpos : (0 : ℚ) < 2 ^ e := by positivity
  have hmantissa : (ExtendedMantissa.ofMantissaAndAccuracy m accuracy).mantissa = m := by
    rcases accuracy with _ | (_ | _ | _) <;> rfl
  obtain ⟨hlo, hhi⟩ := hm.bounds
  rw [hmantissa] at hlo hhi
  rw [le_div_iff₀ hpos] at hlo
  rw [div_lt_iff₀ hpos] at hhi
  rcases Nat.eq_zero_or_pos m with rfl | hm
  · rw [Nat.cast_zero, zero_add, one_mul] at hhi
    have hlog : Int.log 2 x < e := (Int.lt_zpow_iff_log_lt (by norm_num) hx).mp hhi
    rw [targetExponent_eq, Nat.log2_zero]
    unfold lastPlace at he ⊢
    rw [abs_of_pos hx] at he ⊢
    omega
  · rw [targetExponent_eq, lastPlace, abs_of_pos hx, log_of_bounds hm hlo hhi]

/-- The first shift leads to the place of the last digit, and the mantissa
rounded there is the nearest one. -/
theorem shiftToTargetExponent_of_represents {m : Nat} {e : ℤ} {accuracy : Accuracy} {x : ℚ}
    (hx : 0 < x) (hm : Represents (.ofMantissaAndAccuracy m accuracy) (x / 2 ^ e))
    (he : e ≤ lastPlace x) :
    (shiftToTargetExponent binary64 m e accuracy).2 = lastPlace x ∧
      ((shiftToTargetExponent binary64 m e accuracy).1.roundedMantissa : ℤ) =
        nearestEven (x / quantum x) := by
  simp only [shiftToTargetExponent, shiftToExponent, targetExponent_of_represents hx hm he]
  obtain ⟨d, hd⟩ := Int.le.dest he
  have hshift : (lastPlace x - e).toNat = d := by omega
  rw [hshift]
  refine ⟨hd, ?_⟩
  have hdiv : x / quantum x = x / 2 ^ e / 2 ^ d := by
    rw [quantum, ← hd, zpow_add₀ (by norm_num), zpow_natCast, div_div]
  rw [hdiv]
  exact (hm.shiftRight d).roundedMantissa

/-- The second shift has nothing to do if the mantissa has 53 digits. -/
theorem shiftToTargetExponent_of_lt {m : Nat} {e : ℤ} (hm : m < 2 ^ 53) (he : -1074 ≤ e) :
    shiftToTargetExponent binary64 m e .exact = (⟨m, false, false⟩, e) := by
  have hlog : m.log2 ≤ 52 := by
    by_cases h : m = 0
    · simp [h]
    · exact Nat.le_of_lt_succ ((Nat.log2_lt h).mpr hm)
  have hshift : (binary64.targetExponent (totalExponent m e) - e).toNat = 0 := by
    rw [targetExponent_eq]
    omega
  rw [shiftToTargetExponent, shiftToExponent, hshift, Nat.cast_zero, add_zero]
  rfl

/-- Where the mantissa was rounded up to a 54th digit, the second shift takes
away the zero at its end. -/
theorem shiftToTargetExponent_carry {e : ℤ} (he : -1074 ≤ e) :
    shiftToTargetExponent binary64 (2 ^ 53) e .exact = (⟨2 ^ 52, false, false⟩, e + 1) := by
  have hshift : (binary64.targetExponent (totalExponent (2 ^ 53) e) - e).toNat = 1 := by
    rw [targetExponent_eq, Nat.log2_two_pow]
    omega
  rw [shiftToTargetExponent, shiftToExponent, hshift]
  rfl

/-- After the second shift the mantissa has 53 digits, or the exponent is the
smallest, and no digit was lost. -/
theorem shiftToTargetExponent_of_le {m : Nat} {e : ℤ} (hm : m ≤ 2 ^ 53) (he : -1074 ≤ e)
    (hdigits : 2 ^ 52 ≤ m ∨ e = -1074) :
    ∃ (n : Nat) (k : ℤ), shiftToTargetExponent binary64 m e .exact = (⟨n, false, false⟩, k) ∧
      (n : ℚ) * 2 ^ k = m * 2 ^ e ∧ n < 2 ^ 53 ∧ -1074 ≤ k ∧ (2 ^ 52 ≤ n ∨ k = -1074) := by
  rcases hm.lt_or_eq with hsmall | rfl
  · exact ⟨m, e, shiftToTargetExponent_of_lt hsmall he, rfl, hsmall, he, hdigits⟩
  · refine ⟨2 ^ 52, e + 1, shiftToTargetExponent_carry he, ?_, by norm_num, by omega, .inl le_rfl⟩
    rw [zpow_add_one₀ (by norm_num)]
    push_cast
    ring

/-- A number taken apart that is the nearest one to `x`. -/
structure Rounded (u : UnpackedFloat) (x : ℚ) : Prop where
  value : unpackedValue? u = some (nearest x)
  canonical : Canonical u

theorem apply_mul_zpow (sign : Sign) (m : Nat) (e : ℤ) :
    ((sign.apply m : ℤ) : ℚ) * 2 ^ e = (sign.apply 1 : ℤ) * (m * 2 ^ e) := by
  cases sign <;> simp [Sign.apply]

theorem nearest_apply_one_mul (sign : Sign) (x : ℚ) :
    nearest ((sign.apply 1 : ℤ) * x) = (sign.apply 1 : ℤ) * nearest x := by
  cases sign <;> simp [Sign.apply]

/-- A mantissa and an exponent are rounded to the nearest number, provided that what they
leave out stands behind the place of its last digit. -/
theorem rounded_roundWithAccuracy (sign : Sign) {m : Nat} {e : ℤ} {accuracy : Accuracy} {x : ℚ}
    (hx : 0 < x) (hm : Represents (.ofMantissaAndAccuracy m accuracy) (x / 2 ^ e))
    (he : e ≤ lastPlace x) :
    Rounded (roundWithAccuracy binary64 sign m e accuracy) ((sign.apply 1 : ℤ) * x) := by
  obtain ⟨hplace, hround⟩ := shiftToTargetExponent_of_represents hx hm he
  generalize hfirst : shiftToTargetExponent binary64 m e accuracy = first at hplace hround
  obtain ⟨em, place⟩ := first
  dsimp only at hplace hround
  have hvalue : nearest x = em.roundedMantissa * 2 ^ place := by
    rw [nearest, ← hround, quantum, hplace, Int.cast_natCast]
  have hupper : em.roundedMantissa ≤ 2 ^ 53 := by
    have h := nearestEven_div_quantum_le hx
    rw [← hround] at h
    exact_mod_cast h
  have hlower : 2 ^ 52 ≤ em.roundedMantissa ∨ place = -1074 := by
    by_cases hsmallest : place = -1074
    · exact .inr hsmallest
    · have h := le_nearestEven_div_quantum hx (hplace ▸ hsmallest)
      rw [← hround] at h
      exact .inl (by exact_mod_cast h)
  obtain ⟨n, k, hsecond, hkept, hcanonical⟩ :=
    shiftToTargetExponent_of_le hupper (hplace ▸ le_max_right _ _) hlower
  rw [roundWithAccuracy, hfirst]
  dsimp only
  rw [hsecond]
  dsimp only
  split
  case isTrue hzero =>
    refine ⟨?_, trivial⟩
    rw [nearest_apply_one_mul, hvalue, ← hkept, hzero, Nat.cast_zero, zero_mul, mul_zero]
    rfl
  case isFalse hzero =>
    refine ⟨?_, hcanonical⟩
    rw [nearest_apply_one_mul, hvalue, ← hkept, ← apply_mul_zpow]
    rfl

/-- Nothing is left out where all digits are there. -/
theorem rounded_roundWithAccuracy_exact (sign : Sign) {m : Nat} (hm : 0 < m) {e : ℤ}
    (he : e ≤ lastPlace ((m : ℚ) * 2 ^ e)) :
    Rounded (roundWithAccuracy binary64 sign m e .exact) ((sign.apply m : ℤ) * 2 ^ e) := by
  rw [apply_mul_zpow]
  refine rounded_roundWithAccuracy sign (by positivity) ?_ he
  rw [mul_div_cancel_right₀ _ (by positivity)]
  exact .exact m

theorem rounded_round (sign : Sign) {m : Nat} (hm : 0 < m) (e : ℤ) :
    Rounded (UnpackedFloat.round binary64 sign m e) ((sign.apply m : ℤ) * 2 ^ e) := by
  simp only [UnpackedFloat.round, targetExponent_eq_lastPlace hm, decreaseExponent]
  generalize hd : (e - lastPlace ((m : ℚ) * 2 ^ e)).toNat = d
  have hvalue : ((m <<< d : ℕ) : ℚ) * 2 ^ (e - d) = m * 2 ^ e := by
    rw [Nat.shiftLeft_eq, Nat.cast_mul, Nat.cast_pow, Nat.cast_ofNat, mul_assoc, ← zpow_natCast,
      ← zpow_add₀ (by norm_num), add_sub_cancel]
  have hpos : 0 < m <<< d := by
    rw [Nat.shiftLeft_eq]
    positivity
  have h := rounded_roundWithAccuracy_exact sign hpos (e := e - d) (by rw [hvalue]; omega)
  rwa [apply_mul_zpow, hvalue, ← apply_mul_zpow] at h

theorem rounded_normalize (n e : ℤ) (zeroSign : Sign) :
    Rounded (UnpackedFloat.normalize binary64 n e zeroSign) (n * 2 ^ e) := by
  rw [UnpackedFloat.normalize]
  rcases lt_trichotomy n 0 with hn | rfl | hn
  · rw [Int.compare_eq_lt.mpr hn]
    have h := rounded_round .negative (m := (-n).toNat) (by omega) e
    rwa [Sign.apply, Int.toNat_of_nonneg (by omega), neg_neg] at h
  · exact ⟨by simp [unpackedValue?], trivial⟩
  · rw [Int.compare_eq_gt.mpr hn]
    have h := rounded_round .positive (m := n.toNat) (by omega) e
    rwa [Sign.apply, Int.toNat_of_nonneg hn.le] at h

end VectorQuery.Number
