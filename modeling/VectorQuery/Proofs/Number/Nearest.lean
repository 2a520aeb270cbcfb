import Mathlib.Data.Int.Log
import Mathlib.Data.Rat.Floor
import Mathlib.Algebra.Order.Field.Power
import Mathlib.Tactic.Linarith
import Mathlib.Tactic.NormNum
import Mathlib.Tactic.Ring
import Mathlib.Tactic.FieldSimp
import Mathlib.Tactic.Positivity

/-!
# The nearest binary64 number

`Number.nearest x` is the rational number that has at most 53 significant
binary digits, none below the place of `2 ^ -1074`, and is the nearest to `x`;
of two that are equally near it is the one with the even last digit.  The
exponent has no upper end here: what is too large for binary64 is up to those
who round.

How far off it is follows from the place of the last digit (`Number.quantum`),
and so does where it is not off at all: at the numbers that are
`Number.Representable`, and only there.
-/

namespace VectorQuery.Number

/-! ## The nearest whole number -/

/-- The whole number nearest to `x`, in the middle between two the even one. -/
def nearestEven (x : ℚ) : ℤ :=
  if Int.fract x < 1 / 2 then ⌊x⌋
  else if 1 / 2 < Int.fract x then ⌊x⌋ + 1
  else if Even ⌊x⌋ then ⌊x⌋ else ⌊x⌋ + 1

theorem abs_nearestEven_sub_le (x : ℚ) : |(nearestEven x : ℚ) - x| ≤ 1 / 2 := by
  have hx := Int.floor_add_fract x
  have h0 := Int.fract_nonneg x
  have h1 := Int.fract_lt_one x
  unfold nearestEven
  rw [abs_le]
  split_ifs <;> push_cast <;> constructor <;> linarith

/-- No whole number is nearer. -/
theorem abs_nearestEven_sub_le_of_int (x : ℚ) (n : ℤ) : |(nearestEven x : ℚ) - x| ≤ |n - x| := by
  by_cases h : nearestEven x = n
  · rw [h]
  · have hone : (1 : ℚ) ≤ |(nearestEven x : ℚ) - n| := by
      have hint : 1 ≤ |nearestEven x - n| := Int.one_le_abs (sub_ne_zero.mpr h)
      exact_mod_cast hint
    have htri := abs_sub_le (nearestEven x : ℚ) x n
    rw [abs_sub_comm x] at htri
    linarith [abs_nearestEven_sub_le x]

/-- What is nearer than half to a whole number is rounded to it. -/
theorem nearestEven_eq {x : ℚ} {n : ℤ} (h : |x - n| < 1 / 2) : nearestEven x = n := by
  have hlt : |(nearestEven x : ℚ) - n| < 1 := by
    have hle := abs_sub_le (nearestEven x : ℚ) x n
    linarith [abs_nearestEven_sub_le x]
  have hz : |nearestEven x - n| < 1 := by exact_mod_cast hlt
  rw [Int.abs_lt_one_iff] at hz
  omega

@[simp] theorem nearestEven_intCast (n : ℤ) : nearestEven (n : ℚ) = n :=
  nearestEven_eq (by norm_num)

theorem nearestEven_le {x : ℚ} {n : ℤ} (h : x ≤ n) : nearestEven x ≤ n := by
  have hlt : (nearestEven x : ℚ) < n + 1 := by linarith [(abs_le.mp (abs_nearestEven_sub_le x)).2]
  exact Int.lt_add_one_iff.mp (by exact_mod_cast hlt)

theorem le_nearestEven {x : ℚ} {n : ℤ} (h : (n : ℚ) ≤ x) : n ≤ nearestEven x := by
  have hlt : (n : ℚ) < nearestEven x + 1 := by linarith [(abs_le.mp (abs_nearestEven_sub_le x)).1]
  exact Int.lt_add_one_iff.mp (by exact_mod_cast hlt)

theorem nearestEven_add_half (n : ℤ) :
    nearestEven (n + 1 / 2) = if Even n then n else n + 1 := by
  have hfloor : ⌊(n : ℚ) + 1 / 2⌋ = n := by
    rw [Int.floor_eq_iff]
    constructor <;> linarith
  have hfract : Int.fract ((n : ℚ) + 1 / 2) = 1 / 2 := by
    rw [Int.fract, hfloor]
    ring
  unfold nearestEven
  rw [hfract, hfloor]
  norm_num

theorem nearestEven_neg (x : ℚ) : nearestEven (-x) = -nearestEven x := by
  rcases (abs_nearestEven_sub_le x).lt_or_eq with hlt | heq
  · refine nearestEven_eq ?_
    push_cast
    rwa [show -x - -(nearestEven x : ℚ) = (nearestEven x : ℚ) - x by ring]
  · -- in the middle between `n` and `n + 1`
    obtain ⟨n, rfl⟩ : ∃ n : ℤ, x = n + 1 / 2 := by
      rcases abs_eq (by norm_num : (0 : ℚ) ≤ 1 / 2) |>.mp heq with h | h
      · exact ⟨nearestEven x - 1, by push_cast; linarith⟩
      · exact ⟨nearestEven x, by linarith⟩
    rw [show -((n : ℚ) + 1 / 2) = ((-n - 1 : ℤ) : ℚ) + 1 / 2 by push_cast; ring,
      nearestEven_add_half, nearestEven_add_half]
    by_cases hn : Even n
    · rw [if_pos hn, if_neg (by simpa [parity_simps] using hn)]
      ring
    · rw [if_neg hn, if_pos (by simpa [parity_simps] using hn)]
      ring

/-! ## The place of the last digit -/

/-- The place of the last digit of the binary64 numbers about `x`: the 53rd
from the first one of `x`, but none below that of the smallest number. -/
def lastPlace (x : ℚ) : ℤ := max (Int.log 2 |x| - 52) (-1074)

/-- The value of a one in the last digit. -/
def quantum (x : ℚ) : ℚ := 2 ^ lastPlace x

theorem quantum_pos (x : ℚ) : 0 < quantum x := by
  unfold quantum
  positivity

@[simp] theorem lastPlace_neg (x : ℚ) : lastPlace (-x) = lastPlace x := by
  rw [lastPlace, lastPlace, abs_neg]

@[simp] theorem quantum_neg (x : ℚ) : quantum (-x) = quantum x := by
  rw [quantum, quantum, lastPlace_neg]

theorem two_zpow_eq {j k : ℤ} (h : k = j + 1) : (2 : ℚ) ^ k = 2 ^ j * 2 := by
  rw [h, zpow_add_one₀ (by norm_num)]

theorem lt_two_zpow {x : ℚ} {j k : ℤ} (h : x < 2 ^ j) (hjk : j ≤ k) : x < 2 ^ k :=
  h.trans_le (zpow_le_zpow_right₀ (by norm_num) hjk)

/-- The first digit of a number, by the powers of two it lies between. -/
theorem log_eq {x : ℚ} {k : ℤ} (hlo : 2 ^ k ≤ x) (hhi : x < 2 ^ (k + 1)) : Int.log 2 x = k := by
  have hx : 0 < x := lt_of_lt_of_le (by positivity) hlo
  have hge : k ≤ Int.log 2 x := (Int.zpow_le_iff_le_log (by norm_num) hx).mp hlo
  have hlt : Int.log 2 x < k + 1 := (Int.lt_zpow_iff_log_lt (by norm_num) hx).mp hhi
  omega

theorem lastPlace_le {x : ℚ} {k : ℤ} (hx : x ≠ 0) (h : |x| < 2 ^ k) (hk : -1021 ≤ k) :
    lastPlace x ≤ k - 53 := by
  have hlt : Int.log 2 |x| < k := (Int.lt_zpow_iff_log_lt (by norm_num) (abs_pos.mpr hx)).mp h
  unfold lastPlace
  omega

theorem quantum_le {x : ℚ} {k : ℤ} (hx : x ≠ 0) (h : |x| < 2 ^ k) (hk : -1021 ≤ k) :
    quantum x ≤ 2 ^ (k - 53) :=
  zpow_le_zpow_right₀ (by norm_num) (lastPlace_le hx h hk)

/-- There are at most 53 digits up to the last place. -/
theorem abs_lt_mul_quantum (x : ℚ) : |x| < 2 ^ (53 : ℤ) * quantum x := by
  have hlog : |x| < 2 ^ (Int.log 2 |x| + 1) := Int.lt_zpow_succ_log_self (by norm_num) |x|
  refine lt_of_lt_of_le hlog ?_
  rw [quantum, ← zpow_add₀ (by norm_num)]
  exact zpow_le_zpow_right₀ (by norm_num) (by unfold lastPlace; omega)

/-- Above the place of the smallest number there are 53 of them. -/
theorem mul_quantum_le_abs {x : ℚ} (hx : x ≠ 0) (h : lastPlace x ≠ -1074) :
    2 ^ (52 : ℤ) * quantum x ≤ |x| := by
  have hlog : (2 : ℚ) ^ Int.log 2 |x| ≤ |x| := Int.zpow_log_le_self (by norm_num) (abs_pos.mpr hx)
  refine le_trans ?_ hlog
  rw [quantum, ← zpow_add₀ (by norm_num)]
  exact zpow_le_zpow_right₀ (by norm_num) (by unfold lastPlace at h ⊢; omega)

/-- More than 53 digits are reached only by rounding up to `2 ^ 53`. -/
theorem nearestEven_div_quantum_le {x : ℚ} (hx : 0 < x) :
    nearestEven (x / quantum x) ≤ 2 ^ 53 := by
  have hlt := abs_lt_mul_quantum x
  rw [abs_of_pos hx] at hlt
  refine nearestEven_le ?_
  rw [div_le_iff₀ (quantum_pos x)]
  exact_mod_cast hlt.le

theorem le_nearestEven_div_quantum {x : ℚ} (hx : 0 < x) (h : lastPlace x ≠ -1074) :
    2 ^ 52 ≤ nearestEven (x / quantum x) := by
  have hle := mul_quantum_le_abs hx.ne' h
  rw [abs_of_pos hx] at hle
  refine le_nearestEven ?_
  rw [le_div_iff₀ (quantum_pos x)]
  exact_mod_cast hle

/-! ## Rounding -/

/-- The nearest number with 53 digits, of two the one with the even last digit. -/
def nearest (x : ℚ) : ℚ := nearestEven (x / quantum x) * quantum x

@[simp] theorem nearest_zero : nearest 0 = 0 := by
  have h := nearestEven_intCast 0
  rw [Int.cast_zero] at h
  rw [nearest, zero_div, h, Int.cast_zero, zero_mul]

@[simp] theorem nearest_neg (x : ℚ) : nearest (-x) = -nearest x := by
  rw [nearest, nearest, quantum_neg, neg_div, nearestEven_neg, Int.cast_neg, neg_mul]

theorem abs_nearest_sub_le_quantum (x : ℚ) : |nearest x - x| ≤ quantum x / 2 := by
  have hq := quantum_pos x
  have h := mul_le_mul_of_nonneg_right (abs_nearestEven_sub_le (x / quantum x)) hq.le
  have hmul : (nearestEven (x / quantum x) - x / quantum x) * quantum x = nearest x - x := by
    rw [nearest, sub_mul, div_mul_cancel₀ _ hq.ne']
  calc |nearest x - x|
      = |(nearestEven (x / quantum x) : ℚ) - x / quantum x| * quantum x := by
        rw [← hmul, abs_mul, abs_of_pos hq]
    _ ≤ 1 / 2 * quantum x := h
    _ = quantum x / 2 := by ring

/-- Below `2 ^ k` the error is at most half of the last digit there. -/
theorem abs_nearest_sub_le {x : ℚ} {k : ℤ} (h : |x| < 2 ^ k) (hk : -1021 ≤ k) :
    |nearest x - x| ≤ 2 ^ (k - 54) := by
  by_cases hx : x = 0
  · subst hx
    rw [nearest_zero, sub_zero, abs_zero]
    positivity
  · have hq := quantum_le hx h hk
    rw [two_zpow_eq (show k - 53 = k - 54 + 1 by ring)] at hq
    linarith [abs_nearest_sub_le_quantum x]

/-- The error is at most the 2⁻⁵³ part, or half of the smallest number. -/
theorem abs_nearest_sub_le_mul (x : ℚ) :
    |nearest x - x| ≤ |x| * 2 ^ (-53 : ℤ) + 2 ^ (-1075 : ℤ) := by
  by_cases hx : x = 0
  · subst hx
    rw [nearest_zero, sub_zero, abs_zero]
    positivity
  · have hhalf := abs_nearest_sub_le_quantum x
    have hlog : (2 : ℚ) ^ Int.log 2 |x| ≤ |x| := Int.zpow_log_le_self (by norm_num) (abs_pos.mpr hx)
    have hquantum : quantum x ≤ 2 ^ (Int.log 2 |x| - 52) + 2 ^ (-1074 : ℤ) := by
      unfold quantum lastPlace
      rcases max_choice (Int.log 2 |x| - 52) (-1074 : ℤ) with h | h <;> rw [h]
      · exact le_add_of_nonneg_right (by positivity)
      · exact le_add_of_nonneg_left (by positivity)
    have hnormal : (2 : ℚ) ^ (Int.log 2 |x| - 52) ≤ |x| * 2 ^ (-52 : ℤ) := by
      rw [sub_eq_add_neg, zpow_add₀ (by norm_num)]
      exact mul_le_mul_of_nonneg_right hlog (by positivity)
    rw [two_zpow_eq (show (-52 : ℤ) = -53 + 1 by norm_num), ← mul_assoc] at hnormal
    rw [two_zpow_eq (show (-1074 : ℤ) = -1075 + 1 by norm_num)] at hquantum
    linarith

/-- From the smallest number with 53 digits on it is at most the 2⁻⁵³ part. -/
theorem abs_nearest_sub_le_mul_of_le {x : ℚ} (h : 2 ^ (-1022 : ℤ) ≤ |x|) :
    |nearest x - x| ≤ |x| * 2 ^ (-53 : ℤ) := by
  have hpos : 0 < |x| := lt_of_lt_of_le (by positivity) h
  have hhalf := abs_nearest_sub_le_quantum x
  have hlog : (2 : ℚ) ^ Int.log 2 |x| ≤ |x| := Int.zpow_log_le_self (by norm_num) hpos
  have hplace : -1022 ≤ Int.log 2 |x| := (Int.zpow_le_iff_le_log (by norm_num) hpos).mp h
  have hquantum : quantum x ≤ |x| * 2 ^ (-52 : ℤ) := by
    rw [quantum, lastPlace, max_eq_left (by omega), sub_eq_add_neg, zpow_add₀ (by norm_num)]
    exact mul_le_mul_of_nonneg_right hlog (by positivity)
  rw [two_zpow_eq (show (-52 : ℤ) = -53 + 1 by norm_num), ← mul_assoc] at hquantum
  linarith

/-- Rounding does not lead beyond the next power of two. -/
theorem abs_nearest_lt {x : ℚ} {k : ℤ} (h : |x| < 2 ^ k) (hk : -1021 ≤ k) :
    |nearest x| < 2 ^ (k + 1) := by
  have herr := abs_nearest_sub_le h hk
  have htri : |nearest x| ≤ |nearest x - x| + |x| := by
    simpa using abs_add_le (nearest x - x) x
  have hsmall : (2 : ℚ) ^ (k - 54) ≤ 2 ^ k := zpow_le_zpow_right₀ (by norm_num) (by omega)
  rw [two_zpow_eq rfl]
  linarith

/-- About a number between `2 ^ k` and `2 ^ (k + 1)`, the nearest is the
multiple of the last digit there that is nearer than half of it. -/
theorem nearest_eq {x : ℚ} {k n : ℤ} (hk : -1022 ≤ k) (hlo : 2 ^ k ≤ |x|) (hhi : |x| < 2 ^ (k + 1))
    (h : |x - n * 2 ^ (k - 52)| < 2 ^ (k - 53)) : nearest x = n * 2 ^ (k - 52) := by
  have hquantum : quantum x = 2 ^ (k - 52) := by
    rw [quantum, lastPlace, log_eq hlo hhi, max_eq_left (by omega)]
  have hpos : (0 : ℚ) < 2 ^ (k - 52) := by positivity
  have hhalf : (2 : ℚ) ^ (k - 52) = 2 ^ (k - 53) * 2 :=
    two_zpow_eq (by ring)
  have hmul : (x / 2 ^ (k - 52) - n) * 2 ^ (k - 52) = x - n * 2 ^ (k - 52) := by
    rw [sub_mul, div_mul_cancel₀ _ hpos.ne']
  rw [nearest, hquantum, nearestEven_eq]
  rw [← hmul, abs_mul, abs_of_pos hpos] at h
  by_contra hge
  rw [not_lt] at hge
  nlinarith [mul_le_mul_of_nonneg_right hge hpos.le]

/-- A whole number between `2 ^ k` and `2 ^ (k + 1)` is what all numbers are
rounded to that are nearer than half of the last digit there. -/
theorem nearest_eq_intCast {x : ℚ} {t : ℤ} {k : ℕ} (hk : k ≤ 52) (hlo : 2 ^ k < |t|)
    (hhi : |t| < 2 ^ (k + 1)) (h : |x - t| < 2 ^ ((k : ℤ) - 53)) : nearest x = t := by
  have hmultiple : ((t * 2 ^ (52 - k) : ℤ) : ℚ) * 2 ^ ((k : ℤ) - 52) = t := by
    have hzero : ((52 - k : ℕ) : ℤ) + ((k : ℤ) - 52) = 0 := by omega
    push_cast
    rw [mul_assoc, ← zpow_natCast, ← zpow_add₀ (by norm_num), hzero, zpow_zero, mul_one]
  have hone : (2 : ℚ) ^ ((k : ℤ) - 53) ≤ 2 ^ (0 : ℤ) := zpow_le_zpow_right₀ (by norm_num) (by omega)
  have hloq : (2 : ℚ) ^ k + 1 ≤ |(t : ℚ)| := by exact_mod_cast hlo
  have hhiq : |(t : ℚ)| + 1 ≤ 2 ^ (k + 1) := by exact_mod_cast hhi
  have hlower := abs_sub_abs_le_abs_sub (t : ℚ) x
  have hupper := abs_sub_abs_le_abs_sub x t
  rw [abs_sub_comm] at hlower
  rw [zpow_zero] at hone
  rw [← hmultiple]
  apply nearest_eq (by omega)
  · rw [zpow_natCast]
    linarith
  · rw [← Nat.cast_add_one, zpow_natCast]
    linarith
  · rwa [hmultiple]

/-! ## What needs no rounding -/

/-- A number of at most 53 significant binary digits, none below the place of
the smallest binary64 number. -/
def Representable (x : ℚ) : Prop :=
  ∃ m e : ℤ, |m| < 2 ^ 53 ∧ -1074 ≤ e ∧ x = m * 2 ^ e

/-- The 54th digit is a zero where there are so many. -/
theorem representable_mul_zpow {m e : ℤ} (hm : |m| ≤ 2 ^ 53) (he : -1074 ≤ e) :
    Representable (m * 2 ^ e) := by
  rcases hm.lt_or_eq with hlt | heq
  · exact ⟨m, e, hlt, he, rfl⟩
  · rcases (abs_eq (by norm_num)).mp heq with rfl | rfl
    · refine ⟨2 ^ 52, e + 1, by norm_num, by omega, ?_⟩
      rw [zpow_add_one₀ (by norm_num)]
      push_cast
      ring
    · refine ⟨-2 ^ 52, e + 1, by norm_num, by omega, ?_⟩
      rw [zpow_add_one₀ (by norm_num)]
      push_cast
      ring

theorem representable_of_abs_le {n : ℤ} (h : |n| ≤ 2 ^ 53) : Representable n := by
  have hrepresentable := representable_mul_zpow h (show -1074 ≤ (0 : ℤ) by norm_num)
  rwa [zpow_zero, mul_one] at hrepresentable

/-- What has its last digit at that of `x` or before is a multiple of it. -/
theorem exists_eq_mul_quantum {x : ℚ} {e : ℤ} (m : ℤ) (h : lastPlace x ≤ e) :
    ∃ n : ℤ, (m : ℚ) * 2 ^ e = n * quantum x := by
  obtain ⟨d, rfl⟩ := Int.le.dest h
  refine ⟨m * 2 ^ d, ?_⟩
  rw [quantum, zpow_add₀ (by norm_num), zpow_natCast]
  push_cast
  ring

theorem abs_nearest_sub_le_of_multiple (x : ℚ) (n : ℤ) : |nearest x - x| ≤ |n * quantum x - x| := by
  have hq := quantum_pos x
  have hscale : ∀ k : ℤ, |k * quantum x - x| = |k - x / quantum x| * quantum x := by
    intro k
    rw [← abs_of_pos hq, ← abs_mul, abs_of_pos hq, sub_mul, div_mul_cancel₀ _ hq.ne']
  rw [nearest, hscale, hscale]
  exact mul_le_mul_of_nonneg_right (abs_nearestEven_sub_le_of_int _ n) hq.le

/-- What has its last digit behind that of `x` has its first one behind as well. -/
theorem abs_mul_zpow_le_of_lt {x : ℚ} {m e : ℤ} (hm : |m| < 2 ^ 53) (he : e < lastPlace x) :
    |(m : ℚ) * 2 ^ e| ≤ (2 ^ 53 - 1) * (quantum x / 2) := by
  have hmq : |(m : ℚ)| ≤ 2 ^ 53 - 1 := by
    have hle : |m| ≤ 2 ^ 53 - 1 := by omega
    exact_mod_cast hle
  have hhalf : (2 : ℚ) ^ e ≤ quantum x / 2 := by
    rw [le_div_iff₀ two_pos, ← two_zpow_eq rfl]
    exact zpow_le_zpow_right₀ (by norm_num) he
  have hpos : (0 : ℚ) < 2 ^ e := by positivity
  rw [abs_mul, abs_of_pos hpos]
  exact mul_le_mul hmq hhalf hpos.le (by norm_num)

/-- The least multiple with 53 digits, on the side of `x`. -/
theorem exists_abs_mul_quantum_sub {x : ℚ} (h : 2 ^ (52 : ℤ) * quantum x ≤ |x|) :
    ∃ n : ℤ, |n * quantum x - x| = |x| - 2 ^ (52 : ℤ) * quantum x := by
  have hpow : (2 : ℚ) ^ (52 : ℤ) = ((2 ^ 52 : ℤ) : ℚ) := by norm_num
  rw [hpow] at h ⊢
  rcases abs_cases x with ⟨habs, -⟩ | ⟨habs, -⟩ <;> rw [habs] at h ⊢
  · refine ⟨2 ^ 52, ?_⟩
    rw [abs_sub_comm, abs_of_nonneg (sub_nonneg.mpr h)]
  · refine ⟨-2 ^ 52, ?_⟩
    rw [Int.cast_neg, neg_mul, abs_of_nonneg (by linarith)]
    ring

/-- No representable number is nearer. -/
theorem abs_nearest_sub_le_of_representable {x z : ℚ} (h : Representable z) :
    |nearest x - x| ≤ |z - x| := by
  obtain ⟨m, e, hm, he, rfl⟩ := h
  by_cases hplace : lastPlace x ≤ e
  · obtain ⟨n, hn⟩ := exists_eq_mul_quantum m hplace
    rw [hn]
    exact abs_nearest_sub_le_of_multiple x n
  · by_cases hx : x = 0
    · rw [hx, nearest_zero, sub_zero, abs_zero]
      exact abs_nonneg _
    · -- `z` is so small that the least multiple with 53 digits is in between
      rw [not_le] at hplace
      have hsmall := abs_mul_zpow_le_of_lt hm hplace
      obtain ⟨n, hn⟩ := exists_abs_mul_quantum_sub (mul_quantum_le_abs hx (by omega))
      have hmultiple := abs_nearest_sub_le_of_multiple x n
      have hbetween := abs_sub_abs_le_abs_sub x (m * 2 ^ e)
      have hpos := quantum_pos x
      rw [abs_sub_comm] at hbetween
      generalize (m : ℚ) * 2 ^ e = z at *
      norm_num at hsmall hn
      linarith

/-- Rounding leaves alone what is representable, and nothing else. -/
theorem nearest_eq_self_iff {x : ℚ} : nearest x = x ↔ Representable x := by
  constructor
  · intro h
    by_cases hx : x = 0
    · exact ⟨0, 0, by norm_num, by norm_num, by simp [hx]⟩
    · have hq := quantum_pos x
      have hdiv : (nearestEven (x / quantum x) : ℚ) = x / quantum x := by
        rw [eq_div_iff hq.ne']
        exact h
      refine ⟨nearestEven (x / quantum x), lastPlace x, ?_, le_max_right _ _, h.symm⟩
      have hlt : |(nearestEven (x / quantum x) : ℚ)| < 2 ^ (53 : ℤ) := by
        rw [hdiv, abs_div, abs_of_pos hq, div_lt_iff₀ hq]
        exact abs_lt_mul_quantum x
      exact_mod_cast hlt
  · intro h
    have hzero := abs_nearest_sub_le_of_representable (x := x) h
    rwa [sub_self, abs_zero, abs_nonpos_iff, sub_eq_zero] at hzero

theorem abs_nearestEven_div_quantum_le (x : ℚ) : |nearestEven (x / quantum x)| ≤ 2 ^ 53 := by
  rcases lt_trichotomy x 0 with hx | rfl | hx
  · have hneg := nearestEven_div_quantum_le (neg_pos.mpr hx)
    have hle : nearestEven (x / quantum x) ≤ 0 := by
      apply nearestEven_le
      rw [Int.cast_zero]
      exact div_nonpos_of_nonpos_of_nonneg hx.le (quantum_pos x).le
    rw [quantum_neg, neg_div, nearestEven_neg] at hneg
    rwa [abs_of_nonpos hle]
  · have hzero := nearestEven_intCast 0
    rw [Int.cast_zero] at hzero
    rw [zero_div, hzero]
    norm_num
  · have hle : 0 ≤ nearestEven (x / quantum x) := by
      apply le_nearestEven
      rw [Int.cast_zero]
      exact div_nonneg hx.le (quantum_pos x).le
    rw [abs_of_nonneg hle]
    exact nearestEven_div_quantum_le hx

theorem representable_nearest (x : ℚ) : Representable (nearest x) :=
  representable_mul_zpow (abs_nearestEven_div_quantum_le x) (le_max_right _ _)

theorem quantum_le_abs_sub {x : ℚ} {j n : ℤ} (h : n ≠ j) :
    quantum x ≤ |n * quantum x - j * quantum x| := by
  have hone : (1 : ℚ) ≤ |((n - j : ℤ) : ℚ)| := by
    exact_mod_cast Int.one_le_abs (sub_ne_zero.mpr h)
  rw [← sub_mul, ← Int.cast_sub, abs_mul, abs_of_pos (quantum_pos x)]
  exact le_mul_of_one_le_left (quantum_pos x).le hone

/-- Numbers of 53 digits are at least as far apart as half of the last digit of each. -/
theorem Representable.eq_of_abs_sub_lt {x y : ℚ} (hx : Representable x) (hy : Representable y)
    (h : |y - x| < |x| * 2 ^ (-53 : ℤ)) : y = x := by
  obtain ⟨m, e, hm, he, rfl⟩ := hy
  by_cases hplace : lastPlace x ≤ e
  · -- both are multiples of the last digit of `x`
    have hdigits : nearestEven (x / quantum x) * quantum x = x := nearest_eq_self_iff.mpr hx
    obtain ⟨n, hn⟩ := exists_eq_mul_quantum m hplace
    have hxlt := abs_lt_mul_quantum x
    by_contra hne
    have hfar : quantum x ≤ |n * quantum x - nearestEven (x / quantum x) * quantum x| := by
      refine quantum_le_abs_sub fun heq ↦ hne ?_
      rw [hn, heq, hdigits]
    rw [← hn, hdigits] at hfar
    norm_num at h hxlt
    linarith
  · -- `y` has its last digit further back, and so it is nearer to zero by half of one of `x`
    rw [not_le] at hplace
    have hx0 : x ≠ 0 := by
      rintro rfl
      rw [abs_zero, zero_mul] at h
      exact absurd h (abs_nonneg _).not_gt
    have hsmall := abs_mul_zpow_le_of_lt hm hplace
    have hlarge := mul_quantum_le_abs hx0 (by omega)
    have htri := abs_sub_abs_le_abs_sub x (m * 2 ^ e)
    rw [abs_sub_comm] at htri
    generalize (m : ℚ) * 2 ^ e = y at *
    norm_num at h hlarge hsmall
    linarith

/-- What differs from a number of 53 digits by less than the 2⁻⁵⁴ part is rounded to it. -/
theorem nearest_eq_of_abs_sub_lt {x y : ℚ} (hx : Representable x)
    (h : |y - x| < |x| * 2 ^ (-54 : ℤ)) : nearest y = x := by
  apply hx.eq_of_abs_sub_lt (representable_nearest y)
  have hnear := abs_nearest_sub_le_of_representable (x := y) hx
  have htri := abs_sub_le (nearest y) y x
  rw [abs_sub_comm x y] at hnear
  rw [two_zpow_eq (show (-53 : ℤ) = -54 + 1 by norm_num)]
  linarith

theorem nearest_intCast {n : ℤ} (h : |n| ≤ 2 ^ 53) : nearest n = n :=
  nearest_eq_self_iff.mpr (representable_of_abs_le h)

theorem nearest_natCast {n : Nat} (h : n ≤ 2 ^ 53) : nearest n = n := by
  have hint : |(n : ℤ)| ≤ 2 ^ 53 := by
    rw [Nat.abs_cast]
    exact_mod_cast h
  have hnearest := nearest_intCast hint
  rwa [Int.cast_natCast] at hnearest

/-- A whole number is rounded to a whole number. -/
theorem exists_nearest_intCast (n : ℤ) : ∃ m : ℤ, nearest n = m := by
  by_cases hn : |n| ≤ 2 ^ 53
  · exact ⟨n, nearest_intCast hn⟩
  · have hpow : (2 : ℚ) ^ (53 : ℤ) ≤ |(n : ℚ)| := by
      rw [not_le] at hn
      exact_mod_cast hn.le
    have hlog : 53 ≤ Int.log 2 |(n : ℚ)| :=
      (Int.zpow_le_iff_le_log (by norm_num) (lt_of_lt_of_le (by positivity) hpow)).mp hpow
    obtain ⟨d, hd⟩ := Int.eq_ofNat_of_zero_le (show 0 ≤ lastPlace n by unfold lastPlace; omega)
    refine ⟨nearestEven (n / quantum n) * 2 ^ d, ?_⟩
    rw [nearest, quantum, hd]
    push_cast
    simp

/-- Of whole numbers it is the 2⁻⁵³ part at most, without the smallest number
that `abs_nearest_sub_le_mul` has to add. -/
theorem abs_sub_mul_le_of_nearest_eq {m n : ℤ} (h : nearest m = n) : |n - m| * 2 ^ 53 ≤ |m| := by
  have herr := abs_nearest_sub_le_mul m
  have htiny : (2 : ℚ) ^ (-1075 : ℤ) ≤ 2 ^ (-54 : ℤ) :=
    zpow_le_zpow_right₀ (by norm_num) (by norm_num)
  rw [h] at herr
  generalize (2 : ℚ) ^ (-1075 : ℤ) = tiny at *
  have hlt : |(n : ℚ) - m| * 2 ^ 53 < |(m : ℚ)| + 1 := by
    norm_num at herr htiny ⊢
    linarith
  exact Int.lt_add_one_iff.mp (by exact_mod_cast hlt)

end VectorQuery.Number
