import Mathlib
import VectorQuery.Proofs.Json.NumberText
import VectorQuery.Proofs.Number.Read

/-!
# Reading what was written

The decimal of fewest digits that names a number, written and read again, leads to a number
again, also next to the end of the range.  This need not be the same one, as it is found in
steps that round: it differs by a 2⁻⁴⁹ part at most, or by twice the smallest number there is
(`Number.exists_value?_reread`).  It is the same if the digits need no rounding before the
last step (`Number.reread_eq_self`), as with whole numbers of up to fifteen digits.
-/

namespace VectorQuery

open Json.NumberText (exists_literal?_signed isLiteralOf_decimal)

namespace Decimal

open Number

variable {d : Decimal} {x : ℚ}

/-- The zero behind the point of a whole number changes nothing. -/
theorem IsWrittenFor.written (h : d.IsWrittenFor x) : d.written.IsWrittenFor x := by
  rw [Decimal.written]
  split
  case isTrue hwhole =>
    obtain ⟨hnearest, hc, hle, -⟩ := h
    obtain ⟨c, e⟩ := d
    dsimp only at *
    obtain ⟨n, rfl⟩ := Int.eq_ofNat_of_zero_le hwhole.1
    rw [Int.toNat_natCast]
    refine ⟨?_, by positivity, ?_, by norm_num⟩
    · rw [← hnearest, value, value, zpow_natCast, pow_succ]
      push_cast
      congr 1
      norm_num
      ring
    · have hlength := Json.NumberText.lt_ten_pow_length_toDigits c
      calc c * 10 ^ (n + 1) ≤ 10 ^ (Nat.toDigits 10 c).length * 10 ^ (n + 1) :=
            Nat.mul_le_mul_right _ hlength.le
        _ = 10 ^ ((Nat.toDigits 10 c).length + (n + 1)) := (pow_add _ _ _).symm
        _ ≤ 10 ^ 17 := Nat.pow_le_pow_right (by norm_num) (by omega)
  case isFalse => exact h

/-- The last three numbers before the end of the range. -/
theorem isSome_read?_shortestOfBinary (i : Fin 3) :
    ((shortestOfBinary (2 ^ 53 - 3 + i) 971).written.read?).isSome := by
  revert i
  decide +kernel

theorem oneRounding_pow_four : 1 - 2 ^ (-51 : ℤ) < oneRounding ^ 4 := by
  norm_num [oneRounding]

/-- They are the only ones from there on. -/
theorem eq_of_mul_oneRounding_le {m : Nat} {e : ℤ} (hm : m < 2 ^ 53) (he : e ≤ 971)
    (h : 2 ^ (1024 : ℤ) * oneRounding ^ 4 ≤ m * 2 ^ e) :
    ∃ i : Fin 3, m = 2 ^ 53 - 3 + i ∧ e = 971 := by
  have hlarge : (2 ^ 53 - 4 : ℚ) * 2 ^ (971 : ℤ) < m * 2 ^ e := by
    calc (2 ^ 53 - 4 : ℚ) * 2 ^ (971 : ℤ) = 2 ^ (1024 : ℤ) * (1 - 2 ^ (-51 : ℤ)) := by
          rw [show (1024 : ℤ) = 53 + 971 by norm_num, zpow_add₀ (by norm_num)]
          generalize (2 : ℚ) ^ (971 : ℤ) = p
          norm_num
          ring
      _ < 2 ^ (1024 : ℤ) * oneRounding ^ 4 :=
        mul_lt_mul_of_pos_left oneRounding_pow_four (by positivity)
      _ ≤ m * 2 ^ e := h
  have hmq : (m : ℚ) < 2 ^ 53 := by exact_mod_cast hm
  obtain rfl : e = 971 := by
    by_contra hne
    have hhalf : (m : ℚ) * 2 ^ e ≤ 2 ^ 53 * 2 ^ (970 : ℤ) :=
      mul_le_mul hmq.le (zpow_le_zpow_right₀ (by norm_num) (by omega)) (by positivity)
        (by positivity)
    have hpos : (0 : ℚ) < 2 ^ (970 : ℤ) := by positivity
    rw [two_zpow_eq (show (971 : ℤ) = 970 + 1 by norm_num)] at hlarge
    generalize (2 : ℚ) ^ (970 : ℤ) = p at *
    linarith
  have hlt : (2 ^ 53 - 4 : ℚ) < m := lt_of_mul_lt_mul_right hlarge (by positivity)
  have hlast : 2 ^ 53 < m + 4 := by
    rw [sub_lt_iff_lt_add] at hlt
    exact_mod_cast hlt
  exact ⟨⟨m - (2 ^ 53 - 3), by omega⟩, by dsimp only; omega, rfl⟩

/-- What is written for a number is within the range again. -/
theorem isSome_read?_written {a : Float} (ha : value? a = some x) (hx : x ≠ 0) :
    (shortest a).written.read?.isSome := by
  have hwritten := isWrittenFor_shortest ha hx
  by_cases hlt : |x| < 2 ^ (1024 : ℤ) * oneRounding ^ 4
  · exact isSome_read?_of_lt hwritten.written hlt
  · have hcanonical := canonical_unpack a.toModel
    have hend := abs_lt_of_value? ha
    obtain ⟨s, hu, rfl⟩ | ⟨s, m, e, hm, hu, rfl⟩ := zero_or_finite ha
    · exact absurd rfl hx
    · rw [hu] at hcanonical
      rw [abs_signed, not_lt] at hlt
      obtain ⟨i, hi, rfl⟩ :=
        eq_of_mul_oneRounding_le hcanonical.1 (exponent_le_of_abs_lt hcanonical hend) hlt
      rw [shortest_of_unpack hu, hi]
      exact isSome_read?_shortestOfBinary i

end Decimal

/-! ## Numbers -/

namespace Number

open Decimal (shortest)
open Float.Model.UnpackedFloat

/-- The number that the text of a number is read as. -/
def reread (a : Float) : Float :=
  ((Json.NumberText.literal? (Layout.json.number a)).bind Literal.float?).getD nan

/-- The digits that are written for a number, with the zero behind the point of a whole one,
make up a coefficient and a power of ten that need no rounding. -/
def WrittenExactly (a : Float) : Prop :=
  Representable (shortest a).written.coefficient ∧ |(shortest a).written.exponent| ≤ 22

variable {a : Float} {x : ℚ}

theorem isNegative_of_value? (ha : value? a = some x) (hx : x ≠ 0) :
    isNegative a = decide (x < 0) := by
  unfold isNegative
  obtain ⟨s, hu, rfl⟩ | ⟨s, m, e, hm, hu, rfl⟩ := zero_or_finite ha
  · exact absurd rfl hx
  · have hpos : (0 : ℚ) < m * 2 ^ e := by positivity
    rw [hu]
    cases s with
    | negative =>
        have hneg : ((Sign.negative.apply m : ℤ) : ℚ) * 2 ^ e < 0 := by
          simpa [Sign.apply] using hpos
        exact (decide_eq_true hneg).symm
    | positive =>
        have hnonneg : ¬ ((Sign.positive.apply m : ℤ) : ℚ) * 2 ^ e < 0 := by
          simpa [Sign.apply] using hpos.le
        exact (decide_eq_false hnonneg).symm

theorem eq_zero_or_of_value? (ha : value? a = some 0) : a = 0.0 ∨ a = -0.0 := by
  obtain ⟨s, hu, -⟩ | ⟨s, m, e, hm, -, hzero⟩ := zero_or_finite ha
  · have hpack : a = .ofModel (.pack (.zero s)) := by rw [← hu, pack_unpack]
    rw [hpack]
    cases s with
    | negative => exact .inr (by decide +kernel)
    | positive => exact .inl (by decide +kernel)
  · have hpos : (0 : ℚ) < m * 2 ^ e := by positivity
    rw [← abs_signed s, ← hzero, abs_zero] at hpos
    exact absurd rfl hpos.ne

theorem written_of_zero (ha : value? a = some 0) : (shortest a).written = ⟨0, -1⟩ := by
  rw [Decimal.shortest_of_zero ha]
  rfl

/-- What is written for a number is a literal with its digits. -/
theorem isLiteralOf_shortest (ha : value? a = some x) :
    Json.NumberText.IsLiteralOf (Layout.json.decimal (shortest a)) (shortest a).written := by
  by_cases hx : x = 0
  · subst hx
    rw [Decimal.shortest_of_zero ha]
    exact isLiteralOf_decimal (fun _ ↦ rfl) (by norm_num)
  · have hwritten := Decimal.isWrittenFor_shortest ha hx
    exact isLiteralOf_decimal (fun hzero ↦ absurd hzero hwritten.pos.ne') hwritten.coefficient_le

/-- The digits that are written name the number. -/
theorem nearest_value_written (ha : value? a = some x) :
    nearest (shortest a).written.value = |x| := by
  by_cases hx : x = 0
  · subst hx
    rw [written_of_zero ha, Decimal.value, Nat.cast_zero, zero_mul, nearest_zero, abs_zero]
  · exact (Decimal.isWrittenFor_shortest ha hx).written.nearest_eq

theorem isSome_read?_shortest (ha : value? a = some x) : (shortest a).written.read?.isSome := by
  by_cases hx : x = 0
  · subst hx
    rw [written_of_zero ha]
    rfl
  · exact Decimal.isSome_read?_written ha hx

/-- The literal is read as a number. -/
theorem exists_literal?_reread (ha : value? a = some x) :
    ∃ l, Json.NumberText.literal? (Layout.json.number a) = some l ∧ l.integer? = none ∧
      l.negative = isNegative a ∧ l.decimal = (shortest a).written ∧
      l.float? = some (reread a) := by
  obtain ⟨l, hliteral, hinteger, hnegative, hdecimal⟩ :=
    exists_literal?_signed (isLiteralOf_shortest ha) (isNegative a)
  obtain ⟨y, hy⟩ := Option.isSome_iff_exists.mp (isSome_read?_shortest ha)
  have hnumber : Json.NumberText.literal? (Layout.json.number a) = some l := hliteral
  refine ⟨l, hnumber, hinteger, hnegative, hdecimal, ?_⟩
  rw [reread, hnumber, Option.bind_some, Literal.float?, hdecimal, hy]
  rfl

theorem reread_of_zero (ha : value? a = some 0) : reread a = a := by
  rcases eq_zero_or_of_value? ha with rfl | rfl <;> decide +kernel

/-- What a number other than zero is read as. -/
theorem exists_value?_reread_eq (ha : value? a = some x) (hx : x ≠ 0) :
    ∃ r, value? (reread a) = some (if x < 0 then -nearest r else nearest r) ∧
      Within 9 (shortest a).written.value r ∧
      (WrittenExactly a → r = (shortest a).written.value) := by
  have hwritten := (Decimal.isWrittenFor_shortest ha hx).written
  obtain ⟨l, -, -, hnegative, hdecimal, hfloat⟩ := exists_literal?_reread ha
  rw [Literal.float?, hnegative, hdecimal] at hfloat
  obtain ⟨y, hy, hreread⟩ := Option.map_eq_some_iff.mp hfloat
  have hexponent := hwritten.le_exponent
  obtain ⟨r, hvalue, hwithin, hexact⟩ := Decimal.value?_of_read? hwritten.pos
    (hwritten.coefficient_le.trans_lt (by decide)) (by omega) hy
  refine ⟨r, ?_, hwithin, fun h ↦ hexact h.1 h.2⟩
  rw [← hreread, isNegative_of_value? ha hx]
  by_cases hneg : x < 0
  · rw [if_pos (decide_eq_true hneg), if_pos hneg]
    exact value?_neg hvalue
  · rw [if_neg (by simpa using hneg), if_neg hneg]
    exact hvalue

/-- The number that is read differs by a 2⁻⁴⁹ part at most, or by twice the smallest number. -/
theorem exists_value?_reread (ha : value? a = some x) :
    ∃ y, value? (reread a) = some y ∧ |y - x| ≤ |x| * 2 ^ (-49 : ℤ) + 2 ^ (-1073 : ℤ) := by
  by_cases hx : x = 0
  · subst hx
    rw [reread_of_zero ha]
    exact ⟨0, ha, by rw [sub_zero, abs_zero]; positivity⟩
  · have hwritten := (Decimal.isWrittenFor_shortest ha hx).written
    obtain ⟨r, hvalue, hwithin, -⟩ := exists_value?_reread_eq ha hx
    have herr := hwithin.abs_nearest_sub_nearest_le (Decimal.value_pos hwritten.pos)
    rw [hwritten.nearest_eq, abs_abs] at herr
    refine ⟨_, hvalue, ?_⟩
    split
    case isTrue hneg =>
      rw [abs_of_neg hneg] at herr ⊢
      have hmirror : -nearest r - x = -(nearest r - -x) := by ring
      rwa [hmirror, abs_neg]
    case isFalse hnonneg =>
      rw [abs_of_nonneg (not_lt.mp hnonneg)] at herr ⊢
      exact herr

/-- A number that is written exactly is the number that is read. -/
theorem reread_eq_self (ha : value? a = some x) (h : WrittenExactly a) : reread a = a := by
  by_cases hx : x = 0
  · subst hx
    exact reread_of_zero ha
  · have hwritten := (Decimal.isWrittenFor_shortest ha hx).written
    obtain ⟨r, hvalue, -, hexact⟩ := exists_value?_reread_eq ha hx
    refine eq_of_value? (hvalue.trans ?_) ha hx
    rw [hexact h, hwritten.nearest_eq]
    split
    case isTrue hneg => rw [abs_of_neg hneg, neg_neg]
    case isFalse hnonneg => rw [abs_of_nonneg (not_lt.mp hnonneg)]

/-- Whole numbers of up to fifteen digits, and some more, are written exactly. -/
theorem writtenExactly_of_whole {t : Nat} (ha : value? a = some x) (hx : |x| = t)
    (ht : 10 * t ≤ 2 ^ 53) : WrittenExactly a := by
  rcases Nat.eq_zero_or_pos t with rfl | hpos
  · rw [Nat.cast_zero, abs_eq_zero] at hx
    subst hx
    rw [WrittenExactly, written_of_zero ha]
    exact ⟨representable_of_abs_le (n := 0) (by norm_num), by norm_num⟩
  · obtain ⟨c, j, hshortest, hcj⟩ := Decimal.exists_shortest_eq_of_whole ha hx ht
    have hj : j < 16 := by
      by_contra hge
      have hlarge := Nat.le_mul_of_pos_left (10 ^ j) (Nat.pos_of_mul_pos_right (hcj ▸ hpos))
      have hpow : 10 ^ 16 ≤ 10 ^ j := Nat.pow_le_pow_right (by norm_num) (not_lt.mp hge)
      omega
    have hlength : (Nat.toDigits 10 c).length ≤ 16 - j := by
      rw [Nat.length_toDigits_le_iff (by norm_num) (by omega)]
      refine Nat.lt_of_mul_lt_mul_right (a := 10 ^ j) ?_
      rw [hcj, ← pow_add, Nat.sub_add_cancel hj.le]
      omega
    have hwritten : (shortest a).written = ⟨10 * t, -1⟩ := by
      rw [hshortest, Decimal.written, if_pos ⟨Int.natCast_nonneg j, by dsimp only; omega⟩]
      dsimp only
      rw [Int.toNat_natCast, ← hcj, pow_succ]
      congr 1
      ring
    rw [WrittenExactly, hwritten]
    refine ⟨?_, by norm_num⟩
    have hten : |((10 * t : ℕ) : ℤ)| ≤ 2 ^ 53 := by
      rw [Nat.abs_cast]
      exact_mod_cast ht
    exact_mod_cast representable_of_abs_le hten

end Number

end VectorQuery
