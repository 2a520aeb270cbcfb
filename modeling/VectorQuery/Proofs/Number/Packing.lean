import Mathlib
import VectorQuery.Proofs.Number.Rounding

/-!
# Packed binary64 numbers

A number that has been unpacked is in canonical form (`Number.canonical_unpack`),
and a number in canonical form is what unpacking finds after packing, as long as
it is below the end of the range (`Number.unpack_pack`).  Beyond it there are only
the infinities (`Number.unpack_pack_of_le`).
-/

namespace VectorQuery.Number

open Float.Model (UnpackedFloat Format)
open Float.Model.Format (binary64)
open Float.Model.UnpackedFloat

variable {u : UnpackedFloat} {x : ℚ}

/-! ## From bits -/

theorem toNat_one_append (b : BitVec 52) : (1#1 ++ b).toNat = 2 ^ 52 + b.toNat := by
  rw [BitVec.toNat_append, ← Nat.shiftLeft_add_eq_or_of_lt b.isLt]
  rfl

/-- What is taken apart is in canonical form. -/
theorem canonical_unpack (f : Float.Model) : Canonical f.unpack := by
  have hmantissa : (@unpackMantissa binary64 f.toBits.toBitVec).toNat < 2 ^ 52 := BitVec.isLt _
  have hexponent : (@unpackExponent binary64 f.toBits.toBitVec).toNat < 2 ^ 11 := BitVec.isLt _
  unfold Float.Model.unpack UnpackedFloat.unpack
  dsimp only
  split
  case isTrue => split <;> trivial
  case isFalse hinfinite =>
    split
    case isTrue hsubnormal =>
      split
      · trivial
      · refine ⟨by omega, ?_, .inr ?_⟩ <;> rw [hsubnormal] <;> decide
    case isFalse hnormal =>
      have hpos : (@unpackExponent binary64 f.toBits.toBitVec).toNat ≠ 0 :=
        fun h ↦ hnormal (BitVec.eq_of_toNat_eq h)
      simp only [Canonical, toNat_one_append, Format.exponentBias]
      omega

/-- An exponent field in between stands for a mantissa with 53 digits. -/
theorem unpack_packComponents_normal {s : Sign} {b : Nat} {v : BitVec 52} (h0 : b ≠ 0)
    (hb : b < 2047) :
    UnpackedFloat.unpack binary64 (packComponents binary64 s (.ofNat 11 b) v) =
      .finite s (2 ^ 52 + v.toNat) (b - 1075) (by omega) := by
  have hexponent : (BitVec.ofNat 11 b).toNat = b := by
    rw [BitVec.toNat_ofNat, Nat.mod_eq_of_lt (by omega)]
  have hones : BitVec.ofNat 11 b ≠ -1#11 := by
    intro h
    have hb' : b = 2047 := hexponent.symm.trans (congrArg BitVec.toNat h)
    omega
  have hzero : BitVec.ofNat 11 b ≠ 0#11 := by
    intro h
    exact h0 (hexponent.symm.trans (congrArg BitVec.toNat h))
  simp only [UnpackedFloat.unpack, unpackMantissa_packComponents, unpackExponent_packComponents,
    unpackSign_packComponents, Sign.ofBitVec_toBitVec, hones, hzero, if_false, hexponent,
    toNat_one_append]
  rfl

/-- The exponent field 0 stands for the smallest exponent. -/
theorem unpack_packComponents_subnormal {s : Sign} {v : BitVec 52} (h : 0 < v.toNat) :
    UnpackedFloat.unpack binary64 (packComponents binary64 s 0#11 v) =
      .finite s v.toNat (-1074) h := by
  have hzero : v ≠ 0#52 := fun hv ↦ by simp [hv] at h
  simp only [UnpackedFloat.unpack, unpackMantissa_packComponents, unpackExponent_packComponents,
    unpackSign_packComponents, Sign.ofBitVec_toBitVec, hzero]
  rfl

/-! ## There and back -/

theorem pack_unpack (f : Float.Model) : Float.Model.pack f.unpack = f := by
  obtain ⟨⟨bits⟩, hvalid⟩ := f
  simp only [Float.Model.pack, Float.Model.unpack, pack_unpack_of_valid hvalid]

theorem eq_of_unpack_eq {a b : Float} (h : a.toModel.unpack = b.toModel.unpack) : a = b := by
  have hmodel : a.toModel = b.toModel := by rw [← pack_unpack a.toModel, h, pack_unpack]
  exact congrArg Float.ofModel hmodel

theorem exponent_le_of_abs_lt {s : Sign} {m : Nat} {e : ℤ} {hm : 0 < m}
    (hu : Canonical (.finite s m e hm)) (h : |((s.apply m : ℤ) : ℚ) * 2 ^ e| < 2 ^ (1024 : ℤ)) :
    e ≤ 971 := by
  by_contra hlt
  obtain ⟨-, -, hm52 | rfl⟩ := hu
  · have hle : (2 : ℚ) ^ (1024 : ℤ) ≤ m * 2 ^ e := by
      calc (2 : ℚ) ^ (1024 : ℤ) ≤ 2 ^ (52 + e) := zpow_le_zpow_right₀ (by norm_num) (by omega)
        _ = 2 ^ (52 : ℤ) * 2 ^ e := zpow_add₀ (by norm_num) _ _
        _ ≤ m * 2 ^ e := mul_le_mul_of_nonneg_right (by exact_mod_cast hm52) (by positivity)
    rw [abs_signed] at h
    linarith
  · omega

/-- A number in canonical form below the end of the range survives being packed. -/
theorem unpack_pack (hu : Canonical u) (hx : unpackedValue? u = some x)
    (hlt : |x| < 2 ^ (1024 : ℤ)) : (Float.Model.pack u).unpack = u := by
  obtain ⟨s, rfl, rfl⟩ | ⟨s, m, e, hm, rfl, rfl⟩ := zero_or_finite hx
  · exact unpack_packedZero
  · have he := exponent_le_of_abs_lt hu hlt
    obtain ⟨hm53, hmin, hdigits⟩ := hu
    obtain ⟨b, hb⟩ := Int.eq_ofNat_of_zero_le (show 0 ≤ e + 1075 by omega)
    have hbiased : (e + 1023 + 52).toNat = b := by omega
    change UnpackedFloat.unpack binary64 (UnpackedFloat.pack binary64 (.finite s m e hm)) = _
    rw [UnpackedFloat.pack]
    change UnpackedFloat.unpack binary64
      (if 2 ^ 11 ≤ (e + 1023 + 52).toNat + 1 then packedInfinity binary64 s
        else if m.log2 + 1 = 53 then
          packComponents binary64 s (.ofNat 11 (e + 1023 + 52).toNat) (.ofNat 52 m)
        else packComponents binary64 s 0#_ (.ofNat 52 m)) = _
    rw [hbiased, if_neg (by omega)]
    by_cases hm52 : 2 ^ 52 ≤ m
    · have hlog : m.log2 = 52 := (Nat.log2_eq_iff hm.ne').mpr ⟨hm52, hm53⟩
      have hvalue : 2 ^ 52 + (BitVec.ofNat 52 m).toNat = m := by
        rw [BitVec.toNat_ofNat]
        omega
      rw [if_pos (by omega), unpack_packComponents_normal (by omega) (by omega)]
      congr 1
      omega
    · have hlog : m.log2 < 52 := (Nat.log2_lt hm.ne').mpr (not_le.mp hm52)
      have hvalue : (BitVec.ofNat 52 m).toNat = m := by
        rw [BitVec.toNat_ofNat, Nat.mod_eq_of_lt (by omega)]
      rw [if_neg (by omega), unpack_packComponents_subnormal (by omega)]
      congr 1
      omega

theorem le_exponent_of_le_abs {s : Sign} {m : Nat} {e : ℤ} {hm : 0 < m}
    (hu : Canonical (.finite s m e hm)) (h : 2 ^ (1024 : ℤ) ≤ |((s.apply m : ℤ) : ℚ) * 2 ^ e|) :
    972 ≤ e := by
  have hm53 : (m : ℚ) < 2 ^ (53 : ℤ) := by exact_mod_cast hu.1
  rw [abs_signed] at h
  have hlt : (2 : ℚ) ^ (1024 : ℤ) < 2 ^ (53 + e) := by
    rw [zpow_add₀ (by norm_num)]
    exact h.trans_lt (mul_lt_mul_of_pos_right hm53 (by positivity))
  have hexponent := (zpow_lt_zpow_iff_right₀ (by norm_num)).mp hlt
  omega

/-- Beyond the end of the range it becomes an infinity. -/
theorem unpack_pack_of_le (hu : Canonical u) (hx : unpackedValue? u = some x)
    (hle : 2 ^ (1024 : ℤ) ≤ |x|) : ∃ s, (Float.Model.pack u).unpack = .infinity s := by
  obtain ⟨s, rfl, rfl⟩ | ⟨s, m, e, hm, rfl, rfl⟩ := zero_or_finite hx
  · rw [abs_zero] at hle
    exact absurd hle (by positivity : (0 : ℚ) < 2 ^ (1024 : ℤ)).not_ge
  · have he := le_exponent_of_le_abs hu hle
    refine ⟨s, ?_⟩
    change UnpackedFloat.unpack binary64
      (if 2 ^ 11 ≤ (e + 1023 + 52).toNat + 1 then packedInfinity binary64 s
        else if m.log2 + 1 = 53 then
          packComponents binary64 s (.ofNat 11 (e + 1023 + 52).toNat) (.ofNat 52 m)
        else packComponents binary64 s 0#_ (.ofNat 52 m)) = _
    rw [if_pos (by omega)]
    cases s <;> rfl

end VectorQuery.Number
