import Mathlib
import VectorQuery.Proofs.Number.Packing

/-!
# Values of binary64 operations

What a sum or a product has as its value, from the rounding of its parts: the
exact result, rounded to the nearest once, unless that leads to the end of the
range and beyond (`Number.nearest?`, `Number.value?_add`, `Number.value?_mul`).
Numbers are in the order of their values (`Number.le_iff_of_value?`), and have the
same integer part (`Number.truncate_of_value?`).
-/

namespace VectorQuery.Number

open Float.Model (UnpackedFloat Format)
open Float.Model.Format (binary64)
open Float.Model.UnpackedFloat

/-! ## Sums and products of numbers taken apart -/

variable {u v : UnpackedFloat} {x y : ℚ}

theorem Rounded.of_canonical (hu : Canonical u) (hx : unpackedValue? u = some x) : Rounded u x :=
  ⟨by rw [nearest_eq_self_iff.mpr (representable_of_canonical hu hx), hx], hu⟩

theorem apply_mul_apply (s t : Sign) (m n : Nat) :
    (s * t).apply ((m * n : ℕ) : ℤ) = s.apply m * t.apply n := by
  rw [Nat.cast_mul]
  cases s <;> cases t
  case negative.negative => exact (neg_mul_neg _ _).symm
  case negative.positive => exact (neg_mul _ _).symm
  case positive.negative => exact (mul_neg _ _).symm
  case positive.positive => rfl

/-- With 53 digits none is missing, and none with the smallest exponent. -/
theorem le_lastPlace {m : Nat} (hm : 0 < m) {e : ℤ} (h : 52 ≤ m.log2 ∨ e ≤ -1074) :
    e ≤ lastPlace ((m : ℚ) * 2 ^ e) := by
  rw [← targetExponent_eq_lastPlace hm, targetExponent_eq]
  omega

theorem log2_mul_of_le_left {m n : Nat} (hm : 2 ^ 52 ≤ m) (hn : 0 < n) : 52 ≤ (m * n).log2 :=
  (Nat.le_log2 (by positivity)).mpr (hm.trans (Nat.le_mul_of_pos_right m hn))

/-- No digit of a product is missing. -/
theorem add_le_lastPlace_mul {s t : Sign} {m n : Nat} {e f : ℤ} {hm : 0 < m} {hn : 0 < n}
    (hu : Canonical (.finite s m e hm)) (hv : Canonical (.finite t n f hn)) :
    e + f ≤ lastPlace (((m * n : ℕ) : ℚ) * 2 ^ (e + f)) := by
  apply le_lastPlace (Nat.mul_pos hm hn)
  obtain ⟨-, -, hm52 | rfl⟩ := hu
  · exact .inl (log2_mul_of_le_left hm52 hn)
  · obtain ⟨-, -, hn52 | rfl⟩ := hv
    · rw [mul_comm]
      exact .inl (log2_mul_of_le_left hn52 hm)
    · omega

/-- A product is rounded once if none of its digits is missing. -/
theorem rounded_mul_finite {s t : Sign} {m n : Nat} {e f : ℤ} {hm : 0 < m} {hn : 0 < n}
    (h : e + f ≤ lastPlace (((m * n : ℕ) : ℚ) * 2 ^ (e + f))) :
    Rounded (UnpackedFloat.mul binary64 (.finite s m e hm) (.finite t n f hn))
      (((s.apply m : ℤ) * 2 ^ e) * ((t.apply n : ℤ) * 2 ^ f)) := by
  have hrounded := rounded_roundWithAccuracy_exact (s * t) (Nat.mul_pos hm hn) h
  have hvalue : (((s * t).apply ((m * n : ℕ) : ℤ) : ℤ) : ℚ) * 2 ^ (e + f) =
      ((s.apply m : ℤ) * 2 ^ e) * ((t.apply n : ℤ) * 2 ^ f) := by
    rw [apply_mul_apply, zpow_add₀ (by norm_num)]
    push_cast
    ring
  rwa [hvalue] at hrounded

theorem rounded_mul (hu : Canonical u) (hv : Canonical v) (hx : unpackedValue? u = some x)
    (hy : unpackedValue? v = some y) : Rounded (UnpackedFloat.mul binary64 u v) (x * y) := by
  obtain ⟨s, rfl, rfl⟩ | ⟨s, m, e, hm, rfl, rfl⟩ := zero_or_finite hx <;>
    obtain ⟨t, rfl, rfl⟩ | ⟨t, n, f, hn, rfl, rfl⟩ := zero_or_finite hy
  · exact ⟨by simp [UnpackedFloat.mul, unpackedValue?], trivial⟩
  · exact ⟨by simp [UnpackedFloat.mul, unpackedValue?], trivial⟩
  · exact ⟨by simp [UnpackedFloat.mul, unpackedValue?], trivial⟩
  · exact rounded_mul_finite (add_le_lastPlace_mul hu hv)

/-- A mantissa with zeros added for a smaller exponent. -/
theorem apply_shiftLeft_mul_zpow (s : Sign) (m : Nat) {e f : ℤ} (h : f ≤ e) :
    ((s.apply (m <<< (e - f).toNat : ℕ) : ℤ) : ℚ) * 2 ^ f = (s.apply m : ℤ) * 2 ^ e := by
  obtain ⟨d, rfl⟩ := Int.le.dest h
  have hshift : (s.apply (m <<< d : ℕ) : ℤ) = s.apply m * 2 ^ d := by
    cases s <;> simp [Sign.apply, Nat.shiftLeft_eq]
  rw [add_sub_cancel_left, Int.toNat_natCast, hshift, Int.cast_mul, Int.cast_pow, Int.cast_ofNat,
    add_comm, zpow_add₀ (by norm_num), zpow_natCast, mul_assoc]

theorem rounded_add (hu : Canonical u) (hv : Canonical v) (hx : unpackedValue? u = some x)
    (hy : unpackedValue? v = some y) : Rounded (UnpackedFloat.add binary64 u v) (x + y) := by
  obtain ⟨s, rfl, rfl⟩ | ⟨s, m, e, hm, rfl, rfl⟩ := zero_or_finite hx <;>
    obtain ⟨t, rfl, rfl⟩ | ⟨t, n, f, hn, rfl, rfl⟩ := zero_or_finite hy
  · rw [UnpackedFloat.add]
    split <;> exact ⟨by simp [unpackedValue?], trivial⟩
  · rw [zero_add]
    exact .of_canonical hv hy
  · rw [add_zero]
    exact .of_canonical hu hx
  · simp only [UnpackedFloat.add, decreaseExponent]
    have h := rounded_normalize
      (s.apply (m <<< (e - min e f).toNat : ℕ) + t.apply (n <<< (f - min e f).toNat : ℕ))
      (min e f) .positive
    rwa [Int.cast_add, add_mul, apply_shiftLeft_mul_zpow s m (min_le_left e f),
      apply_shiftLeft_mul_zpow t n (min_le_right e f)] at h

/-! ## Values of the operations -/

variable {a b : Float}

theorem isFinite_of_value? (ha : value? a = some x) : a.isFinite = true := by
  change a.toModel.unpack.isFinite = true
  obtain ⟨s, hu, -⟩ | ⟨s, m, e, hm, hu, -⟩ := zero_or_finite ha <;> rw [hu] <;> rfl

theorem exists_value?_of_isFinite (ha : a.isFinite = true) : ∃ x, value? a = some x := by
  change a.toModel.unpack.isFinite = true at ha
  unfold value?
  cases hu : a.toModel.unpack with
  | zero s => exact ⟨_, rfl⟩
  | finite s m e hm => exact ⟨_, rfl⟩
  | infinity s =>
    rw [hu] at ha
    cases ha
  | notANumber =>
    rw [hu] at ha
    cases ha

/-- The nearest binary64 number, if it is below the end of the range. -/
def nearest? (x : ℚ) : Option ℚ := if |nearest x| < 2 ^ (1024 : ℤ) then some (nearest x) else none

theorem nearest?_of_lt (h : |x| < 2 ^ (1023 : ℤ)) : nearest? x = some (nearest x) :=
  if_pos (abs_nearest_lt h (by norm_num))

theorem value?_ofModel_pack (hu : Rounded u x) : value? (.ofModel (.pack u)) = nearest? x := by
  unfold value? nearest?
  split
  case isTrue hlt =>
    rw [unpack_pack hu.canonical hu.value hlt]
    exact hu.value
  case isFalse hge =>
    obtain ⟨s, hinfinity⟩ := unpack_pack_of_le hu.canonical hu.value (not_lt.mp hge)
    rw [hinfinity]
    rfl

theorem nearest?_of_representable (h : Representable x) (hlt : |x| < 2 ^ (1023 : ℤ)) :
    nearest? x = some x := by
  rw [nearest?_of_lt hlt, nearest_eq_self_iff.mpr h]

/-- Whole numbers of 53 digits are far below the end of the range. -/
theorem nearest?_intCast {n : ℤ} (h : |n| ≤ 2 ^ 53) : nearest? n = some (n : ℚ) := by
  have hn : |(n : ℚ)| < 2 ^ (54 : ℤ) := by
    have hle : |(n : ℚ)| ≤ 2 ^ 53 := by exact_mod_cast h
    exact hle.trans_lt (by norm_num)
  exact nearest?_of_representable (representable_of_abs_le h) (lt_two_zpow hn (by norm_num))

theorem value?_mul (ha : value? a = some x) (hb : value? b = some y) :
    value? (a * b) = nearest? (x * y) :=
  value?_ofModel_pack (rounded_mul (canonical_unpack _) (canonical_unpack _) ha hb)

theorem value?_add (ha : value? a = some x) (hb : value? b = some y) :
    value? (a + b) = nearest? (x + y) :=
  value?_ofModel_pack (rounded_add (canonical_unpack _) (canonical_unpack _) ha hb)

/-- The sum of whole numbers is exact. -/
theorem value?_add_int {m n : ℤ} (ha : value? a = some (m : ℚ)) (hb : value? b = some (n : ℚ))
    (hle : |m + n| ≤ 2 ^ 53) : value? (a + b) = some ((m + n : ℤ) : ℚ) := by
  rw [value?_add ha hb, ← Int.cast_add, nearest?_intCast hle]

/-- The product of whole numbers is exact. -/
theorem value?_mul_int {m n : ℤ} (ha : value? a = some (m : ℚ)) (hb : value? b = some (n : ℚ))
    (hle : |m * n| ≤ 2 ^ 53) : value? (a * b) = some ((m * n : ℤ) : ℚ) := by
  rw [value?_mul ha hb, ← Int.cast_mul, nearest?_intCast hle]

theorem canonical_neg (hu : Canonical u) : Canonical u.neg := by
  cases u <;> exact hu

theorem unpackedValue?_neg (hx : unpackedValue? u = some x) : unpackedValue? u.neg = some (-x) := by
  obtain ⟨s, rfl, rfl⟩ | ⟨s, m, e, hm, rfl, rfl⟩ := zero_or_finite hx
  · simp [UnpackedFloat.neg, unpackedValue?]
  · have hneg : (-s).apply m = -s.apply m := by
      cases s with
      | negative => exact (neg_neg _).symm
      | positive => rfl
    rw [UnpackedFloat.neg, unpackedValue?, hneg, Int.cast_neg, neg_mul]

/-- The values are below the end of the range. -/
theorem abs_lt_of_value? (ha : value? a = some x) : |x| < 2 ^ (1024 : ℤ) := by
  by_contra hge
  obtain ⟨s, hinfinity⟩ := unpack_pack_of_le (canonical_unpack _) ha (not_lt.mp hge)
  rw [pack_unpack] at hinfinity
  rw [value?, hinfinity] at ha
  cases ha

theorem unpack_neg (ha : value? a = some x) : (-a).toModel.unpack = a.toModel.unpack.neg := by
  have hlt := abs_lt_of_value? ha
  rw [← abs_neg] at hlt
  exact unpack_pack (canonical_neg (canonical_unpack _)) (unpackedValue?_neg ha) hlt

theorem value?_neg (ha : value? a = some x) : value? (-a) = some (-x) := by
  rw [value?, unpack_neg ha]
  exact unpackedValue?_neg ha

/-- The value of a number that is written out, by its parts. -/
theorem value?_of_unpack {s : Sign} {m : Nat} {e : ℤ} {hm : 0 < m}
    (h : a.toModel.unpack = .finite s m e hm) :
    value? a = some (((s.apply m : ℤ) : ℚ) * 2 ^ e) := by
  unfold value?
  rw [h]
  rfl

/-- A whole number of 64 bits is converted exactly if it has 53 digits. -/
theorem value?_toFloat_toUInt64 {n : Nat} (h : n ≤ 2 ^ 53) :
    value? n.toUInt64.toFloat = some (n : ℚ) := by
  have hn : |(n : ℤ)| ≤ 2 ^ 53 := by
    rw [Nat.abs_cast]
    exact_mod_cast h
  have hword : n.toUInt64.toNat = n := by
    rw [Nat.toUInt64, UInt64.toNat_ofNat', Nat.mod_eq_of_lt (by omega)]
  have hrounded := rounded_normalize n.toUInt64.toNat 0 .positive
  rw [zpow_zero, mul_one] at hrounded
  have hvalue : value? n.toUInt64.toFloat = nearest? (n.toUInt64.toNat : ℤ) :=
    value?_ofModel_pack hrounded
  rw [hvalue, hword, nearest?_intCast hn, Int.cast_natCast]

/-! ## Order -/

/-- In canonical form the number with the larger exponent is the larger one. -/
theorem mul_zpow_lt {s t : Sign} {m n : Nat} {e f : ℤ} {hm : 0 < m} {hn : 0 < n}
    (hu : Canonical (.finite s m e hm)) (hv : Canonical (.finite t n f hn)) (hef : e < f) :
    (m : ℚ) * 2 ^ e < n * 2 ^ f := by
  obtain ⟨hm53, hmin, -⟩ := hu
  obtain ⟨-, -, hn52 | rfl⟩ := hv
  · calc (m : ℚ) * 2 ^ e < 2 ^ (53 : ℤ) * 2 ^ e :=
          mul_lt_mul_of_pos_right (by exact_mod_cast hm53) (by positivity)
      _ = 2 ^ (53 + e) := (zpow_add₀ (by norm_num) _ _).symm
      _ ≤ 2 ^ (52 + f) := zpow_le_zpow_right₀ (by norm_num) (by omega)
      _ = 2 ^ (52 : ℤ) * 2 ^ f := zpow_add₀ (by norm_num) _ _
      _ ≤ n * 2 ^ f := mul_le_mul_of_nonneg_right (by exact_mod_cast hn52) (by positivity)
  · omega

theorem compare_eq_compare_value {s t : Sign} {m n : Nat} {e f : ℤ} {hm : 0 < m} {hn : 0 < n}
    (hu : Canonical (.finite s m e hm)) (hv : Canonical (.finite t n f hn)) :
    (compare e f).then (compare m n) = compare ((m : ℚ) * 2 ^ e) (n * 2 ^ f) := by
  rcases lt_trichotomy e f with hef | rfl | hef
  · rw [compare_lt_iff_lt.mpr hef, compare_lt_iff_lt.mpr (mul_zpow_lt hu hv hef)]
    rfl
  · have hpos : (0 : ℚ) < 2 ^ e := by positivity
    rw [compare_eq_iff_eq.mpr rfl, Ordering.then]
    rcases lt_trichotomy m n with hmn | rfl | hmn
    · rw [compare_lt_iff_lt.mpr hmn,
        compare_lt_iff_lt.mpr (mul_lt_mul_of_pos_right (by exact_mod_cast hmn) hpos)]
    · rw [compare_eq_iff_eq.mpr rfl, compare_eq_iff_eq.mpr rfl]
    · rw [compare_gt_iff_gt.mpr hmn,
        compare_gt_iff_gt.mpr (mul_lt_mul_of_pos_right (by exact_mod_cast hmn) hpos)]
  · rw [compare_gt_iff_gt.mpr hef, compare_gt_iff_gt.mpr (mul_zpow_lt hv hu hef)]
    rfl

theorem compare_neg_neg (x y : ℚ) : compare (-x) (-y) = (compare x y).swap := by
  rw [← Std.OrientedCmp.eq_swap]
  rcases lt_trichotomy x y with h | rfl | h
  · rw [compare_gt_iff_gt.mpr (neg_lt_neg h), compare_gt_iff_gt.mpr h]
  · rw [compare_eq_iff_eq.mpr rfl, compare_eq_iff_eq.mpr rfl]
  · rw [compare_lt_iff_lt.mpr (neg_lt_neg h), compare_lt_iff_lt.mpr h]

theorem compare_eq_some (hu : Canonical u) (hv : Canonical v) (hx : unpackedValue? u = some x)
    (hy : unpackedValue? v = some y) : u.compare v = some (compare x y) := by
  obtain ⟨s, rfl, rfl⟩ | ⟨s, m, e, hm, rfl, rfl⟩ := zero_or_finite hx <;>
    obtain ⟨t, rfl, rfl⟩ | ⟨t, n, f, hn, rfl, rfl⟩ := zero_or_finite hy
  · rfl
  · have hpos : (0 : ℚ) < n * 2 ^ f := by positivity
    cases t with
    | negative =>
      rw [compare_gt_iff_gt.mpr (by simpa [Sign.apply] using hpos)]
      rfl
    | positive =>
      rw [compare_lt_iff_lt.mpr (by simpa [Sign.apply] using hpos)]
      rfl
  · have hpos : (0 : ℚ) < m * 2 ^ e := by positivity
    cases s with
    | negative =>
      rw [compare_lt_iff_lt.mpr (by simpa [Sign.apply] using hpos)]
      rfl
    | positive =>
      rw [compare_gt_iff_gt.mpr (by simpa [Sign.apply] using hpos)]
      rfl
  · have hpos : (0 : ℚ) < m * 2 ^ e := by positivity
    have hpos' : (0 : ℚ) < n * 2 ^ f := by positivity
    have hsame := compare_eq_compare_value hu hv
    cases s <;> cases t <;>
      simp only [Sign.apply, Int.cast_neg, Int.cast_natCast, neg_mul, UnpackedFloat.compare]
    case negative.negative => rw [hsame, compare_neg_neg]
    case negative.positive => rw [compare_lt_iff_lt.mpr (by linarith)]
    case positive.negative => rw [compare_gt_iff_gt.mpr (by linarith)]
    case positive.positive => rw [hsame]

/-- Numbers are in the order of their values. -/
theorem le_iff_of_value? (ha : value? a = some x) (hb : value? b = some y) : a ≤ b ↔ x ≤ y := by
  have hcompare := compare_eq_some (canonical_unpack _) (canonical_unpack _) ha hb
  have hle : a ≤ b ↔ a.toModel.unpack.le b.toModel.unpack = true := decide_eq_true_iff
  rw [hle, UnpackedFloat.le, hcompare, Option.any_some, Ordering.isLE_iff_ne_gt]
  exact compare_le_iff_le

/-- There is one number of each value, but for the sign of zero. -/
theorem eq_of_value? (ha : value? a = some x) (hb : value? b = some x) (hx : x ≠ 0) : a = b := by
  apply eq_of_unpack_eq
  have hsame := compare_eq_some (canonical_unpack _) (canonical_unpack _) ha hb
  have hcanonical := canonical_unpack a.toModel
  have hcanonical' := canonical_unpack b.toModel
  obtain ⟨s, hu, rfl⟩ | ⟨s, m, e, hm, hu, rfl⟩ := zero_or_finite ha
  · exact absurd rfl hx
  obtain ⟨t, hv, hzero⟩ | ⟨t, n, f, hn, hv, hvalue⟩ := zero_or_finite hb
  · exact absurd hzero hx
  rw [hu] at hcanonical ⊢
  rw [hv] at hcanonical' ⊢
  have habs := congrArg (|·|) hvalue
  simp only [abs_signed] at habs
  have hcompare := compare_eq_compare_value hcanonical hcanonical'
  rw [compare_eq_iff_eq.mpr habs, Ordering.then_eq_eq, compare_eq_iff_eq, compare_eq_iff_eq]
    at hcompare
  obtain ⟨rfl, rfl⟩ := hcompare
  have hpos : (0 : ℚ) < m * 2 ^ e := by positivity
  cases s <;> cases t <;> simp only [Sign.apply] at hvalue
  case negative.negative => rfl
  case negative.positive =>
    push_cast at hvalue
    linarith
  case positive.negative =>
    push_cast at hvalue
    linarith
  case positive.positive => rfl

/-! ## The integer part -/

/-- The integer part of a rational number. -/
def towardsZero (x : ℚ) : ℤ := if 0 ≤ x then ⌊x⌋ else ⌈x⌉

@[simp] theorem towardsZero_intCast (n : ℤ) : towardsZero n = n := by
  rw [towardsZero, Int.floor_intCast, Int.ceil_intCast, ite_self]

theorem towardsZero_apply {s : Sign} (h : 0 < x) :
    towardsZero ((s.apply 1 : ℤ) * x) = s.apply ⌊x⌋ := by
  cases s with
  | negative =>
    rw [towardsZero, Sign.apply, Sign.apply, Int.cast_neg, Int.cast_one, neg_one_mul,
      if_neg (by linarith), Int.ceil_neg]
  | positive =>
    rw [towardsZero, Sign.apply, Sign.apply, Int.cast_one, one_mul, if_pos h.le]

theorem abs_towardsZero_le (x : ℚ) : |(towardsZero x : ℚ)| ≤ |x| := by
  unfold towardsZero
  split
  case isTrue h =>
    have hfloor : (0 : ℚ) ≤ ⌊x⌋ := by exact_mod_cast Int.floor_nonneg.mpr h
    rw [abs_of_nonneg h, abs_of_nonneg hfloor]
    exact Int.floor_le x
  case isFalse h =>
    rw [not_le] at h
    have hceil : (⌈x⌉ : ℚ) ≤ 0 := by exact_mod_cast Int.ceil_le.mpr (by simpa using h.le)
    rw [abs_of_neg h, abs_of_nonpos hceil]
    linarith [Int.le_ceil x]

theorem floor_dyadic (m : Nat) (e : ℤ) :
    (if 0 ≤ e then ((m <<< e.toNat : ℕ) : ℤ) else ((m >>> (-e).toNat : ℕ) : ℤ)) =
      ⌊(m : ℚ) * 2 ^ e⌋ := by
  split
  case isTrue he =>
    obtain ⟨k, rfl⟩ := Int.eq_ofNat_of_zero_le he
    have hint : (m : ℚ) * 2 ^ (k : ℤ) = ((m * 2 ^ k : ℕ) : ℤ) := by
      push_cast
      rw [zpow_natCast]
    rw [hint, Int.floor_intCast, Int.toNat_natCast, Nat.shiftLeft_eq]
  case isFalse he =>
    obtain ⟨k, rfl⟩ : ∃ k : ℕ, e = -k := ⟨(-e).toNat, by omega⟩
    have hdiv : (m : ℚ) * 2 ^ (-(k : ℤ)) = m / ((2 ^ k : ℕ) : ℚ) := by
      push_cast
      rw [zpow_neg, zpow_natCast, div_eq_mul_inv]
    rw [hdiv, Rat.floor_natCast_div_natCast, neg_neg, Int.toNat_natCast, Nat.shiftRight_eq_div_pow]
    rfl

/-- The integer part of a number is that of its value. -/
theorem truncate_of_value? (ha : value? a = some x) : truncate a = towardsZero x := by
  unfold truncate
  obtain ⟨s, hu, rfl⟩ | ⟨s, m, e, hm, hu, rfl⟩ := zero_or_finite ha <;> rw [hu]
  · exact (towardsZero_intCast 0).symm
  · rw [apply_mul_zpow, towardsZero_apply (by positivity), ← floor_dyadic]

end VectorQuery.Number
