import VectorQuery.Instant
import VectorQuery.Proofs.Number.Decimal

/-!
# Milliseconds to and from binary64

On the way to binary64 a number of nanoseconds is rounded four times: a
billionth, the fraction of a second, which is a multiple of it, the seconds and
the milliseconds (`Nanoseconds.value?_toMilliseconds`).  On the way back there is
one rounding, of the nanoseconds (`Nanoseconds.ofMilliseconds_eq`).

The first way leaves whole seconds as they are, and whole milliseconds where the
last digit of the seconds is worth less than that of the milliseconds.  Elsewhere
it stays within a few units of the last digit.
-/

namespace VectorQuery

open Number

namespace Nanoseconds

/-! ## Nanoseconds in the range -/

theorem count_clamp_of_abs_le {n : ℤ} (h : |n| ≤ 32768 * perCentury) : (clamp n).count = n := by
  rw [abs_le] at h
  rw [clamp, dif_pos (by unfold min; omega), dif_pos (by unfold max; omega)]

theorem abs_count_le (n : Nanoseconds) : |n.count| ≤ 32768 * perCentury := by
  have hmin := n.min_le
  have hmax := n.le_max
  unfold min at hmin
  unfold max at hmax
  rw [abs_le]
  omega

/-! ## To binary64 -/

/-- A billionth, rounded. -/
def billionth : ℚ := nearest (1 / 10 ^ 9)

theorem billionth_eq : billionth = 4835703278458517 / 2 ^ 82 := by
  have hnearest : nearest (1 / 10 ^ 9) = (4835703278458517 : ℤ) * 2 ^ (-30 - 52 : ℤ) := by
    apply nearest_eq <;> norm_num [abs_lt]
  rw [billionth, hnearest]
  norm_num

theorem value?_billionth : value? 1e-9 = some billionth := by
  have hunpack : (1e-9 : Float).toModel.unpack =
    .finite .positive 4835703278458517 (-82) (by norm_num) := rfl
  rw [value?_of_unpack hunpack, billionth_eq]
  norm_num [Float.Model.UnpackedFloat.Sign.apply]

theorem value?_thousand : value? 1000.0 = some 1000 := by
  have hunpack : (1000.0 : Float).toModel.unpack =
    .finite .positive 8796093022208000 (-43) (by norm_num) := rfl
  rw [value?_of_unpack hunpack]
  norm_num [Float.Model.UnpackedFloat.Sign.apply]

theorem value?_secondsPerCentury : value? 3155760000.0 = some ((3155760000 : ℤ) : ℚ) := by
  have hunpack : (3155760000.0 : Float).toModel.unpack =
    .finite .positive 6618108395520000 (-21) (by norm_num) := rfl
  rw [value?_of_unpack hunpack]
  norm_num [Float.Model.UnpackedFloat.Sign.apply]

/-- The fraction of a second, rounded. -/
def roundedFraction (n : ℤ) : ℚ := nearest ((n % perSecond : ℤ) * billionth)

/-- The number of seconds, rounded. -/
def roundedSeconds (n : ℤ) : ℚ := nearest ((n / perSecond : ℤ) + roundedFraction n)

/-- The number of milliseconds, rounded. -/
def roundedMilliseconds (n : ℤ) : ℚ := nearest (roundedSeconds n * 1000)

variable {n : ℤ}

/-- The centuries and what is beyond them make up the whole, also at the end of the range. -/
theorem exists_centuries_eq (n : Nanoseconds) :
    ∃ c r, n.centuries = (c, r) ∧ c * perCentury + r = n.count ∧
      |c| ≤ 32768 ∧ 0 ≤ r ∧ r ≤ perCentury := by
  have hrange := abs_le.mp n.abs_count_le
  rw [centuries]
  split
  case isTrue hmax =>
    refine ⟨32767, perCentury, rfl, ?_, by norm_num, by norm_num [perCentury], le_rfl⟩
    unfold max at hmax
    omega
  case isFalse =>
    refine ⟨n.count / perCentury, n.count % perCentury, rfl, ?_⟩
    rw [abs_le]
    unfold perCentury at *
    omega

theorem century_seconds {c r : ℤ} (h : c * perCentury + r = n) :
    c * 3155760000 + r / perSecond = n / perSecond := by
  unfold perCentury at h
  unfold perSecond
  omega

theorem century_fraction {c r : ℤ} (h : c * perCentury + r = n) :
    r % perSecond = n % perSecond := by
  unfold perCentury at h
  unfold perSecond
  omega

/-- The fraction of a second is rounded, and less than 4. -/
theorem value?_fraction (n : ℤ) :
    value? (Float.ofInt (n % perSecond) * 1e-9) = some (roundedFraction n) ∧
      |roundedFraction n| < 2 ^ (2 : ℤ) := by
  have hmod : 0 ≤ n % perSecond ∧ n % perSecond < 1000000000 := by
    unfold perSecond
    omega
  have hint : |n % perSecond| ≤ 2 ^ 53 := by
    rw [abs_le]
    omega
  have hlo : (0 : ℚ) ≤ (n % perSecond : ℤ) := by exact_mod_cast hmod.1
  have hhi : ((n % perSecond : ℤ) : ℚ) < 1000000000 := by exact_mod_cast hmod.2
  have hproduct : |((n % perSecond : ℤ) : ℚ) * billionth| < 2 ^ (1 : ℤ) := by
    rw [billionth_eq, abs_lt]
    constructor <;> linarith
  refine ⟨?_, abs_nearest_lt hproduct (by norm_num)⟩
  rw [value?_mul (value?_ofInt hint) value?_billionth,
    nearest?_of_lt (lt_two_zpow hproduct (by norm_num)), roundedFraction]

/-- The number of seconds is rounded after the fraction has been. -/
theorem value?_toSeconds (n : Nanoseconds) :
    value? n.toSeconds = some (roundedSeconds n.count) ∧
      |roundedSeconds n.count| < 2 ^ (54 : ℤ) := by
  obtain ⟨hfraction, hsmall⟩ := value?_fraction n.count
  have hseconds : |n.count / perSecond| < 2 ^ 53 - 4 := by
    have hrange := abs_le.mp n.abs_count_le
    rw [abs_lt]
    unfold perCentury at hrange
    unfold perSecond
    omega
  have hsum : |((n.count / perSecond : ℤ) : ℚ) + roundedFraction n.count| < 2 ^ (53 : ℤ) := by
    have hq : |((n.count / perSecond : ℤ) : ℚ)| < 2 ^ 53 - 4 := by exact_mod_cast hseconds
    have htri := abs_add_le ((n.count / perSecond : ℤ) : ℚ) (roundedFraction n.count)
    norm_num at hq hsmall htri ⊢
    linarith
  have hrange := nearest?_of_lt (lt_two_zpow hsum (by norm_num))
  refine ⟨?_, abs_nearest_lt hsum (by norm_num)⟩
  obtain ⟨c, r, hcenturies, hn, hc, hr⟩ := n.exists_centuries_eq
  have hrest : |r / perSecond| ≤ 2 ^ 53 := by
    rw [abs_le]
    unfold perCentury at hr
    unfold perSecond
    omega
  simp only [toSeconds, hcenturies, century_fraction hn]
  split
  case isTrue hzero =>
    have hwhole : r / perSecond = n.count / perSecond := by
      rw [← century_seconds hn, hzero, zero_mul, zero_add]
    rw [hwhole] at hrest ⊢
    exact (value?_add (value?_ofInt hrest) hfraction).trans hrange
  case isFalse =>
    rw [abs_le] at hc
    have hcount : |c| ≤ 2 ^ 53 := by
      rw [abs_le]
      omega
    have hproduct : |c * 3155760000| ≤ 2 ^ 53 := by
      rw [abs_le]
      omega
    have hstart := value?_mul_int (value?_ofInt hcount) value?_secondsPerCentury hproduct
    have hwhole := value?_add_int hstart (value?_ofInt hrest)
      (by rw [century_seconds hn]; exact hseconds.le.trans (by norm_num))
    rw [century_seconds hn] at hwhole
    exact (value?_add hwhole hfraction).trans hrange

/-- The number of milliseconds is rounded after the number of seconds has been. -/
theorem value?_toMilliseconds (n : Nanoseconds) :
    value? n.toMilliseconds = some (roundedMilliseconds n.count) := by
  obtain ⟨hseconds, hsmall⟩ := n.value?_toSeconds
  have hproduct : |roundedSeconds n.count * 1000| < 2 ^ (64 : ℤ) := by
    rw [abs_mul, Nat.abs_ofNat]
    norm_num at hsmall ⊢
    linarith
  rw [toMilliseconds, value?_mul hseconds value?_thousand,
    nearest?_of_lt (lt_two_zpow hproduct (by norm_num)), roundedMilliseconds]

/-! ## Whole milliseconds on the way to binary64 -/

theorem millisecond_seconds (t : ℤ) : t * perMillisecond / perSecond = t / 1000 := by
  unfold perMillisecond perSecond
  omega

theorem millisecond_fraction (t : ℤ) :
    t * perMillisecond % perSecond = t % 1000 * 1000000 := by
  unfold perMillisecond perSecond
  omega

/-- Some thousandths, as a multiple of the rounded billionth, are off by the 2⁻⁵²
part at most. -/
theorem abs_nearest_mul_billionth_sub_le {m : ℤ} (h : 0 ≤ m) :
    |nearest ((m * 1000000 : ℤ) * billionth) - m / 1000| ≤ m / 1000 * 2 ^ (-52 : ℤ) := by
  rcases h.eq_or_lt with rfl | hpos
  · simp
  · have hm : (1 : ℚ) ≤ m := by exact_mod_cast hpos
    have herr := abs_nearest_sub_le_mul ((m * 1000000 : ℤ) * billionth)
    have htiny : (2 : ℚ) ^ (-1075 : ℤ) ≤ 2 ^ (-80 : ℤ) :=
      zpow_le_zpow_right₀ (by norm_num) (by norm_num)
    have hliteral : ((m * 1000000 : ℤ) : ℚ) * billionth = m * (1000000 * billionth) := by
      push_cast
      ring
    rw [hliteral] at herr ⊢
    rw [abs_of_nonneg (a := (m : ℚ) * _) (by rw [billionth_eq]; positivity), abs_le] at herr
    rw [abs_le]
    generalize nearest _ = f at *
    generalize (2 : ℚ) ^ (-1075 : ℤ) = tiny at *
    rw [billionth_eq] at herr
    norm_num at herr htiny ⊢
    constructor <;> linarith

theorem abs_seconds_sub_le (t : ℤ) :
    |((t * perMillisecond / perSecond : ℤ) : ℚ) + roundedFraction (t * perMillisecond) -
      t / 1000| ≤ (t % 1000 : ℤ) / 1000 * 2 ^ (-52 : ℤ) := by
  have hsplit : (t : ℚ) = 1000 * (t / 1000 : ℤ) + (t % 1000 : ℤ) := by
    exact_mod_cast (Int.mul_ediv_add_emod t 1000).symm
  have hmod : 0 ≤ t % 1000 := Int.emod_nonneg t (by norm_num)
  have hfraction := abs_nearest_mul_billionth_sub_le hmod
  rw [roundedFraction, millisecond_seconds, millisecond_fraction]
  convert hfraction using 2
  generalize nearest _ = f at *
  generalize t / 1000 = s at *
  rw [hsplit]
  generalize t % 1000 = m at *
  ring

/-- Whole seconds are written as they are. -/
theorem roundedMilliseconds_of_dvd {t : ℤ} (h : |t| < 2 ^ 53) (hdvd : 1000 ∣ t) :
    roundedMilliseconds (t * perMillisecond) = t := by
  obtain ⟨s, rfl⟩ := hdvd
  have hs : |s| < 2 ^ 53 := by
    rw [abs_lt] at h ⊢
    omega
  have hfraction : roundedFraction (1000 * s * perMillisecond) = 0 := by
    rw [roundedFraction, millisecond_fraction, Int.mul_emod_right, zero_mul, Int.cast_zero,
      zero_mul, nearest_zero]
  rw [roundedMilliseconds, roundedSeconds, hfraction, millisecond_seconds, add_zero,
    Int.mul_ediv_cancel_left s (by norm_num), nearest_intCast hs.le]
  have hmul : (s : ℚ) * 1000 = ((1000 * s : ℤ) : ℚ) := by
    push_cast
    ring
  rw [hmul, nearest_intCast h.le]

/-- Below `1000 * 2 ^ (k - 9)` milliseconds the last digit of the seconds is worth
less than that of the milliseconds from `2 ^ k` on, so that they are off by less
than half of it. -/
theorem abs_roundedSeconds_mul_sub_lt {t : ℤ} {k : ℕ} (hk : 17 ≤ k)
    (hhi : |t| * 2 ^ 9 < 1000 * 2 ^ k) :
    |roundedSeconds (t * perMillisecond) * 1000 - t| < 2 ^ ((k : ℤ) - 53) := by
  obtain ⟨j, rfl⟩ := Nat.exists_eq_add_of_le hk
  -- all powers of two are multiples of `2 ^ j`, in which the rest is linear
  have hpow : ∀ i : ℤ, (2 : ℚ) ^ (((17 + j : ℕ) : ℤ) + i) = 2 ^ j * 2 ^ (17 + i) := by
    intro i
    rw [← zpow_natCast, ← zpow_add₀ (by norm_num)]
    congr 1
    push_cast
    ring
  have hunit : (1 : ℚ) ≤ 2 ^ j := one_le_pow₀ (by norm_num)
  have ht : |(t : ℚ)| + 1 ≤ 2 ^ j * 256000 := by
    have hint : |t| + 1 ≤ 2 ^ j * 256000 := by
      rw [pow_add] at hhi
      omega
    exact_mod_cast hint
  have hm : ((t % 1000 : ℤ) : ℚ) ≤ 999 := by
    norm_cast
    omega
  have hexact := abs_seconds_sub_le t
  rw [roundedSeconds]
  generalize ((t * perMillisecond / perSecond : ℤ) : ℚ) + _ = y at *
  have hy : |y| < 2 ^ (((17 + j : ℕ) : ℤ) + -9) := by
    have htri := abs_sub_abs_le_abs_sub y (t / 1000)
    rw [hpow]
    rw [abs_div, Nat.abs_ofNat] at htri
    norm_num at hexact ⊢
    linarith
  have hrounded := abs_nearest_sub_le hy (by omega)
  rw [add_sub_assoc, hpow, abs_le] at hrounded
  rw [abs_le] at hexact
  rw [sub_eq_add_neg _ (53 : ℤ), hpow, abs_lt]
  generalize nearest y = s at *
  norm_num at hexact hrounded ⊢
  constructor <;> linarith

/-- From `2 ^ k` on up to there, the number is rounded to the milliseconds. -/
theorem roundedMilliseconds_of_lt {t : ℤ} {k : ℕ} (h : |t| ≤ 2 ^ 53) (hk : 17 ≤ k)
    (hlo : 2 ^ k < |t|) (hhi : |t| * 2 ^ 9 < 1000 * 2 ^ k) :
    roundedMilliseconds (t * perMillisecond) = t := by
  have hk52 : k ≤ 52 := by
    by_contra hlt
    have hpow : (2 : ℤ) ^ 53 ≤ 2 ^ k := pow_le_pow_right₀ (by norm_num) (by omega)
    omega
  have hnext : |t| < 2 ^ (k + 1) := by
    rw [pow_succ]
    omega
  exact nearest_eq_intCast hk52 hlo hnext (abs_roundedSeconds_mul_sub_lt hk hhi)

/-- The four roundings together are off by a few units in the last digit. -/
theorem abs_roundedMilliseconds_sub_le {t : ℤ} (h : |t| ≤ 2 ^ 53) :
    |roundedMilliseconds (t * perMillisecond) - t| ≤ (|(t : ℚ)| + 1000) * 2 ^ (-52 : ℤ) := by
  have hexact := abs_seconds_sub_le t
  have hm : ((t % 1000 : ℤ) : ℚ) ≤ 999 := by
    norm_cast
    omega
  have ht : |(t : ℚ)| ≤ 2 ^ 53 := by exact_mod_cast h
  have htiny : (2 : ℚ) ^ (-1075 : ℤ) ≤ 2 ^ (-80 : ℤ) :=
    zpow_le_zpow_right₀ (by norm_num) (by norm_num)
  rw [roundedMilliseconds, roundedSeconds]
  generalize ((t * perMillisecond / perSecond : ℤ) : ℚ) + _ = y at *
  have hseconds := abs_nearest_sub_le_mul y
  have hmilliseconds := abs_nearest_sub_le_mul (nearest y * 1000)
  have hy := abs_sub_abs_le_abs_sub y (t / 1000)
  have hs := abs_sub_abs_le_abs_sub (nearest y) y
  have hnonneg := abs_nonneg (t : ℚ)
  rw [abs_div, Nat.abs_ofNat] at hy
  rw [abs_mul, Nat.abs_ofNat] at hmilliseconds
  generalize nearest (nearest y * 1000) = q at *
  generalize nearest y = s at *
  generalize (2 : ℚ) ^ (-1075 : ℤ) = tiny at *
  norm_num at hexact hseconds hmilliseconds htiny ht ⊢
  have hystart : |y| ≤ |(t : ℚ)| / 1000 + 999 / 1000 * (1 / 4503599627370496) := by linarith
  have hsstart : |s| ≤ |y| + (|y| * (1 / 9007199254740992) + tiny) := by linarith
  rw [abs_le] at hexact hseconds hmilliseconds ⊢
  constructor <;> linarith

/-! ## From binary64 -/

theorem value?_perMillisecond : value? 1e6 = some (perMillisecond : ℚ) := by
  have hunpack : (1e6 : Float).toModel.unpack =
    .finite .positive 8589934592000000 (-33) (by norm_num) := rfl
  rw [value?_of_unpack hunpack]
  norm_num [Float.Model.UnpackedFloat.Sign.apply, perMillisecond]

/-- The milliseconds from where on they are taken for the end of the range. -/
def endOfMilliseconds : ℚ := 4722366482869645 * 2 ^ (952 : ℤ)

theorem lt_endOfMilliseconds : 2 ^ (54 : ℤ) < endOfMilliseconds := by
  have hpos : (0 : ℚ) < 2 ^ (952 : ℤ) := by positivity
  have hlo : (2 : ℚ) ^ (54 : ℤ) < 2 ^ (952 : ℤ) := zpow_lt_zpow_right₀ (by norm_num) (by norm_num)
  exact hlo.trans_le (le_mul_of_one_le_left hpos.le (by norm_num))

theorem value?_endOfMilliseconds :
    value? (Float.ofBits 0x7fefffffffffffff / 1e6) = some endOfMilliseconds := by
  have hunpack : (Float.ofBits 0x7fefffffffffffff / 1e6).toModel.unpack =
    .finite .positive 4722366482869645 952 (by norm_num) := rfl
  rw [value?_of_unpack hunpack, endOfMilliseconds]
  norm_num [Float.Model.UnpackedFloat.Sign.apply]

/-- The nanoseconds that a number of milliseconds is read as: rounded to the
nearest number, and then without what is left of a nanosecond. -/
def readNanoseconds (q : ℚ) : ℤ := towardsZero (nearest (q * perMillisecond))

variable {q : ℚ}

theorem abs_mul_perMillisecond_lt (h : |q| ≤ 2 ^ 54) : |q * perMillisecond| < 2 ^ (74 : ℤ) := by
  have hmillion : (perMillisecond : ℚ) = 1000000 := by norm_num [perMillisecond]
  rw [hmillion, abs_mul, Nat.abs_ofNat]
  norm_num at h ⊢
  linarith

theorem abs_readNanoseconds_lt (h : |q| ≤ 2 ^ 54) : |readNanoseconds q| < 2 ^ 75 := by
  have hnearest := abs_nearest_lt (abs_mul_perMillisecond_lt h) (by norm_num)
  have hlt := (abs_towardsZero_le _).trans_lt hnearest
  exact_mod_cast hlt

/-- The way from binary64 rounds once. -/
theorem ofMilliseconds_eq {x : Float} (h : |q| ≤ 2 ^ 54) (hx : value? x = some q) :
    (ofMilliseconds x).count = readNanoseconds q := by
  have hbound := abs_readNanoseconds_lt h
  have hvalue : value? (x * 1e6) = some (nearest (q * perMillisecond)) :=
    (value?_mul hx value?_perMillisecond).trans
      (nearest?_of_lt (lt_two_zpow (abs_mul_perMillisecond_lt h) (by norm_num)))
  have hend := lt_endOfMilliseconds
  have hneg := value?_neg value?_endOfMilliseconds
  rw [abs_le] at h
  rw [ofMilliseconds, if_neg, if_neg, truncate_of_value? hvalue]
  · exact count_clamp_of_abs_le (by rw [perCentury, ← readNanoseconds]; omega)
  · rw [le_iff_of_value? hx hneg]
    norm_num at hend h ⊢
    linarith
  · rw [le_iff_of_value? value?_endOfMilliseconds hx]
    norm_num at hend h ⊢
    linarith

/-- Whole milliseconds lose to the rounding only. -/
theorem readNanoseconds_intCast (t : ℤ) :
    (readNanoseconds t : ℚ) = nearest (t * perMillisecond : ℤ) := by
  obtain ⟨n, hn⟩ := exists_nearest_intCast (t * perMillisecond)
  rw [readNanoseconds, ← Int.cast_mul, hn, towardsZero_intCast]

end Nanoseconds

/-- Every instant has a number of milliseconds that can be written. -/
theorem Instant.isFinite_toUnixMilliseconds (time : Instant) :
    time.toUnixMilliseconds.isFinite :=
  isFinite_of_value? time.sinceUnix.value?_toMilliseconds

end VectorQuery
