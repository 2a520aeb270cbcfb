import Mathlib
import VectorQuery.Proofs.Number.Decimal

/-!
# The digits that name a number

The search for the shortest decimal goes through grids of powers of ten, from coarse to
fine, and tries the two points around the number on each.  On the grid of the seventeenth
digit the nearer point always names the number, so that the search ends there at the latest
(`Decimal.exists_mem_candidates_sixteen`).
-/

namespace VectorQuery.Decimal

open Number
open Float.Model.UnpackedFloat

/-! ## The position of the first digit -/

theorem digitCount_le_iff {n k : Nat} : digitCount n ≤ k ↔ n < 10 ^ k := by
  rw [digitCount]
  split
  case isTrue hzero => simp [hzero]
  case isFalse hzero =>
    rcases Nat.eq_zero_or_pos k with rfl | hk
    · have hlength := Nat.length_toDigits_pos (b := 10) (n := n)
      omega
    · exact Nat.length_toDigits_le_iff (by norm_num) hk

theorem leadingPosition_eq {num den : Nat} (hnum : 0 < num) (hden : 0 < den) :
    leadingPosition num den = Int.log 10 ((num : ℚ) / den) := by
  have hdenq : (0 : ℚ) < den := by exact_mod_cast hden
  rw [leadingPosition]
  split
  case isTrue hle =>
    have hone : (1 : ℚ) ≤ num / den := by
      rw [one_le_div hdenq]
      exact_mod_cast hle
    have hquotient : num / den ≠ 0 := (Nat.div_pos hle hden).ne'
    have hcount : digitCount (num / den) = Nat.log 10 (num / den) + 1 := by
      refine eq_of_forall_ge_iff fun k ↦ ?_
      rw [digitCount_le_iff, ← Nat.log_lt_iff_lt_pow (by norm_num) hquotient, Nat.succ_le_iff]
    rw [Int.log_of_one_le_right 10 hone, Nat.floor_div_eq_div, hcount]
    omega
  case isFalse hlt =>
    rw [not_le] at hlt
    have hnumq : (0 : ℚ) < num := by exact_mod_cast hnum
    have hone : (num : ℚ) / den ≤ 1 := by
      rw [div_le_one hdenq]
      exact_mod_cast hlt.le
    rw [Int.log_of_right_le_one 10 hone, inv_div]
    congr 2
    refine eq_of_forall_ge_iff fun k ↦ ?_
    rw [digitCount_le_iff, Nat.clog_le_iff_le_pow (by norm_num), Nat.ceil_le, div_le_iff₀ hnumq,
      Nat.div_lt_iff_lt_mul hnum]
    norm_cast
    omega

/-! ## The points around a number -/

variable {num den : Nat} {e : ℤ}

/-- A quotient of whole numbers, scaled by a power of the base. -/
theorem scaled_eq (b num den : Nat) (e : ℤ) :
    ((num * Nat.pow b (-e).toNat : ℕ) : ℚ) / (den * Nat.pow b e.toNat : ℕ) =
      num / den / b ^ e := by
  simp only [Nat.pow_eq]
  rcases le_total 0 e with he | he
  · obtain ⟨n, rfl⟩ := Int.eq_ofNat_of_zero_le he
    rw [Int.toNat_neg_natCast, Int.toNat_natCast, zpow_natCast, div_div]
    push_cast
    rw [pow_zero, mul_one]
  · obtain ⟨n, rfl⟩ : ∃ n : ℕ, e = -n := ⟨(-e).toNat, by omega⟩
    rw [Int.toNat_neg_natCast, neg_neg, Int.toNat_natCast, zpow_neg, zpow_natCast, div_inv_eq_mul]
    push_cast
    rw [pow_zero, mul_one, div_mul_eq_mul_div]

/-- The two points on a grid around a number: their coefficients are next to the quotient,
and the first one is the nearer. -/
theorem neighbours_spec (hden : 0 < den) (num : Nat) (e : ℤ) :
    ∃ a b : Nat, neighbours num den e = [⟨a, e⟩, ⟨b, e⟩] ∧
      |(a : ℚ) - num / den / 10 ^ e| ≤ 1 / 2 ∧
      (a : ℚ) ≤ num / den / 10 ^ e + 1 ∧ (b : ℚ) ≤ num / den / 10 ^ e + 1 := by
  have hscaled := scaled_eq 10 num den e
  rw [Nat.cast_ofNat] at hscaled
  rw [← hscaled]
  simp only [neighbours]
  generalize num * Nat.pow 10 (-e).toNat = n
  have hpos : 0 < den * Nat.pow 10 e.toNat := Nat.mul_pos hden (Nat.pow_pos (by norm_num))
  generalize den * Nat.pow 10 e.toNat = d at *
  have hd : (0 : ℚ) < d := by exact_mod_cast hpos
  have hrest : (0 : ℚ) ≤ (n % d : ℕ) / d := by positivity
  have hone : ((n % d : ℕ) : ℚ) / d < 1 := by
    rw [div_lt_one hd]
    exact_mod_cast Nat.mod_lt n hpos
  rw [natCast_div_natCast n hpos]
  split
  case isTrue hnear =>
    have hhalf : ((n % d : ℕ) : ℚ) / d ≤ 1 / 2 := by
      rw [div_le_div_iff₀ hd two_pos, one_mul, mul_comm]
      exact_mod_cast (show 2 * (n % d) ≤ d by omega)
    refine ⟨n / d, n / d + 1, rfl, ?_, ?_, ?_⟩
    · rw [abs_le]
      constructor <;> linarith
    · linarith
    · push_cast
      linarith
  case isFalse hfar =>
    have hhalf : (1 : ℚ) / 2 ≤ ((n % d : ℕ) : ℚ) / d := by
      rw [div_le_div_iff₀ two_pos hd, one_mul, mul_comm ((n % d : ℕ) : ℚ)]
      exact_mod_cast (show d ≤ 2 * (n % d) by omega)
    refine ⟨n / d + 1, n / d, rfl, ?_, ?_, ?_⟩
    · rw [abs_le]
      push_cast
      constructor <;> linarith
    · push_cast
      linarith
    · linarith

/-! ## Decimals that name a number -/

theorem value?_ofParts (m : Nat) (e : ℤ) (hm : 0 < m) :
    value? (ofParts .positive m e) = nearest? (m * 2 ^ e) :=
  value?_ofModel_pack (rounded_round .positive hm e)

variable {d : Decimal} {m : Nat}

theorem toFloat_eq_ofParts_iff (hd : |d.exponent| ≤ 2048) (hm : 0 < m)
    (hx : Representable (m * 2 ^ e)) (hlt : (m : ℚ) * 2 ^ e < 2 ^ (1024 : ℤ)) :
    d.toFloat = ofParts .positive m e ↔ nearest d.value = m * 2 ^ e := by
  have hpos : (0 : ℚ) < m * 2 ^ e := by positivity
  have hinside : |(m : ℚ) * 2 ^ e| < 2 ^ (1024 : ℤ) := by rwa [abs_of_pos hpos]
  have hparts : value? (ofParts .positive m e) = some ((m : ℚ) * 2 ^ e) := by
    rw [value?_ofParts m e hm, nearest?, nearest_eq_self_iff.mpr hx, if_pos hinside]
  constructor
  · intro h
    rw [← h, value?_toFloat hd, nearest?] at hparts
    split at hparts
    · exact Option.some.inj hparts
    · cases hparts
  · intro h
    refine eq_of_value? ?_ hparts hpos.ne'
    rw [value?_toFloat hd, nearest?, h, if_pos hinside]

/-- The first place where a search comes to an end is not behind any such place. -/
theorem exists_findSome?_range {β : Type} {f : Nat → Option β} {i k : Nat} (hi : i < k)
    (h : (f i).isSome) :
    ∃ n ≤ i, ∃ b, f n = some b ∧ (List.range k).findSome? f = some b := by
  have hfound : ((List.range k).findSome? f).isSome :=
    List.findSome?_isSome_iff.mpr ⟨i, List.mem_range.mpr hi, h⟩
  obtain ⟨b, hb⟩ := Option.isSome_iff_exists.mp hfound
  obtain ⟨before, n, behind, hrange, hn, hbefore⟩ := List.findSome?_eq_some_iff.mp hb
  refine ⟨n, ?_, b, hn, hb⟩
  have hsorted := List.pairwise_lt_range (n := k)
  rw [hrange, List.pairwise_append, List.pairwise_cons] at hsorted
  have hmem : i ∈ before ++ n :: behind := hrange ▸ List.mem_range.mpr hi
  rcases List.mem_append.mp hmem with hmem | hmem
  · rw [hbefore i hmem] at h
    cases h
  · rcases List.mem_cons.mp hmem with rfl | hmem
    · exact le_rfl
    · exact (hsorted.2.1.1 i hmem).le

/-! ## Zeros at the end -/

theorem ten_pow_dvd (c : Nat) :
    10 ^ ((Nat.toDigits 10 c).reverse.takeWhile (· = '0')).length ∣ c := by
  have hsplit := List.takeWhile_append_dropWhile (p := (· = '0')) (l := (Nat.toDigits 10 c).reverse)
  have hzeros : ∀ d ∈ (Nat.toDigits 10 c).reverse.takeWhile (· = '0'), d = '0' := fun d hd ↦ by
    simpa using List.mem_takeWhile_imp hd
  generalize (Nat.toDigits 10 c).reverse.takeWhile (· = '0') = zeros at *
  generalize (Nat.toDigits 10 c).reverse.dropWhile (· = '0') = digits at hsplit
  rw [List.eq_replicate_iff.mpr ⟨rfl, hzeros⟩, eq_comm, List.reverse_eq_iff, List.reverse_append,
    List.reverse_replicate] at hsplit
  have hvalue : Nat.ofDigitChars 10 (Nat.toDigits 10 c) 0 = c :=
    Nat.ofDigitChars_toDigits (by norm_num) (by norm_num)
  rw [hsplit, Nat.ofDigitChars_append, Nat.ofDigitChars_replicate_zero] at hvalue
  exact ⟨_, hvalue.symm⟩

theorem exists_normalize_eq {c : Nat} (hc : 0 < c) (e : ℤ) :
    ∃ z a : Nat, c = 10 ^ z * a ∧ normalize ⟨c, e⟩ = ⟨a, e + z⟩ := by
  obtain ⟨a, ha⟩ := ten_pow_dvd c
  refine ⟨_, a, ha, ?_⟩
  rw [normalize, if_neg hc.ne']
  simp only [Nat.pow_eq]
  congr 1
  exact Nat.div_eq_of_eq_mul_right (by positivity) ha

/-! ## What is written -/

/-- What is known of a decimal that is written for a number: the number is the nearest one
to it, and how large its parts are. -/
structure IsWrittenFor (d : Decimal) (x : ℚ) : Prop where
  nearest_eq : nearest d.value = x
  pos : 0 < d.coefficient
  coefficient_le : d.coefficient ≤ 10 ^ 17
  le_exponent : -340 ≤ d.exponent

variable {x : ℚ}

/-- Without the zeros at its end a decimal is the same. -/
theorem IsWrittenFor.normalize (h : d.IsWrittenFor x) : d.normalize.IsWrittenFor x := by
  obtain ⟨c, e⟩ := d
  obtain ⟨hnearest, hpos, hle, hexponent⟩ := h
  dsimp only at hpos hle hexponent
  obtain ⟨z, a, rfl, hnormalize⟩ := exists_normalize_eq hpos e
  have hone : 1 ≤ 10 ^ z := Nat.one_le_pow _ _ (by norm_num)
  rw [hnormalize]
  refine ⟨?_, Nat.pos_of_mul_pos_left hpos, ?_, ?_⟩
  · rw [← hnearest, value, value, zpow_add₀ (by norm_num), zpow_natCast]
    push_cast
    congr 1
    ring
  · exact (Nat.le_mul_of_pos_left a hone).trans hle
  · dsimp only
    omega

/-- The smallest number and the end of the range have their first digits here. -/
theorem log_bounds (hlo : 2 ^ (-1074 : ℤ) ≤ x) (hhi : x < 2 ^ (1024 : ℤ)) :
    -324 ≤ Int.log 10 x ∧ Int.log 10 x ≤ 308 := by
  have hpos : 0 < x := lt_of_lt_of_le (by positivity) hlo
  constructor
  · rw [← Int.zpow_le_iff_le_log (by norm_num) hpos]
    have hpow : (2 : ℕ) ^ 1074 ≤ 10 ^ 324 := by decide +kernel
    refine le_trans ?_ hlo
    rw [zpow_neg, zpow_neg]
    exact inv_anti₀ (by positivity) (by exact_mod_cast hpow)
  · have hpow : (2 : ℕ) ^ 1024 < 10 ^ 309 := by decide +kernel
    have hlt : x < ((10 : ℕ) : ℚ) ^ (309 : ℤ) := hhi.trans (by exact_mod_cast hpow)
    exact Int.lt_add_one_iff.mp ((Int.lt_zpow_iff_log_lt (by norm_num) hpos).mp hlt)

theorem le_of_representable_of_pos (hx : Representable x) (hpos : 0 < x) :
    2 ^ (-1074 : ℤ) ≤ x := by
  obtain ⟨m, e, -, he, rfl⟩ := hx
  have hm : (1 : ℚ) ≤ m := by
    have hint : (0 : ℚ) < m := pos_of_mul_pos_left hpos (by positivity)
    exact_mod_cast hint
  calc (2 : ℚ) ^ (-1074 : ℤ) ≤ 2 ^ e := zpow_le_zpow_right₀ (by norm_num) he
    _ ≤ m * 2 ^ e := le_mul_of_one_le_left (by positivity) hm

/-! ## The candidates -/

/-- The two points that are tried on the grid of the digit `n`. -/
def candidates (m : Nat) (e : ℤ) (n : Nat) : List Decimal :=
  let num := m * Nat.pow 2 e.toNat
  let den := Nat.pow 2 (-e).toNat
  neighbours num den (leadingPosition num den - n)

theorem candidates_spec (hm : 0 < m) (e : ℤ) (n : Nat) :
    ∃ a b : Nat, ∃ k : ℤ, k = Int.log 10 ((m : ℚ) * 2 ^ e) - n ∧
      candidates m e n = [⟨a, k⟩, ⟨b, k⟩] ∧ |(a : ℚ) - m * 2 ^ e / 10 ^ k| ≤ 1 / 2 ∧
      (a : ℚ) ≤ m * 2 ^ e / 10 ^ k + 1 ∧ (b : ℚ) ≤ m * 2 ^ e / 10 ^ k + 1 := by
  have hbinary := scaled_eq 2 m 1 (-e)
  rw [neg_neg, one_mul, zpow_neg, div_inv_eq_mul, Nat.cast_one, div_one, Nat.cast_ofNat] at hbinary
  have hpow (k : Nat) : 0 < Nat.pow 2 k := Nat.pow_pos (by norm_num)
  have hposition := leadingPosition_eq (Nat.mul_pos hm (hpow e.toNat)) (hpow (-e).toNat)
  rw [hbinary] at hposition
  obtain ⟨a, b, hab, hbounds⟩ := neighbours_spec (hpow (-e).toNat) (m * Nat.pow 2 e.toNat)
    (Int.log 10 ((m : ℚ) * 2 ^ e) - n)
  rw [hbinary] at hbounds
  refine ⟨a, b, _, rfl, ?_, hbounds⟩
  rw [candidates, hposition]
  exact hab

/-- The first points are the coarsest, and have the fewest digits. -/
theorem of_mem_candidates {n : Nat} (hm : 0 < m) (hd : d ∈ candidates m e n) :
    d.exponent = Int.log 10 ((m : ℚ) * 2 ^ e) - n ∧ d.coefficient ≤ 10 ^ (n + 1) := by
  have hlog : (m : ℚ) * 2 ^ e < 10 ^ (Int.log 10 ((m : ℚ) * 2 ^ e) + 1) := by
    exact_mod_cast Int.lt_zpow_succ_log_self (b := 10) (by norm_num) ((m : ℚ) * 2 ^ e)
  obtain ⟨a, b, k, hk, hab, -, ha, hb⟩ := candidates_spec hm e n
  have hquotient : (m : ℚ) * 2 ^ e / 10 ^ k < 10 ^ (n + 1) := by
    have hsum : ((n + 1 : ℕ) : ℤ) + k = Int.log 10 ((m : ℚ) * 2 ^ e) + 1 := by omega
    rwa [div_lt_iff₀ (by positivity), ← zpow_natCast, ← zpow_add₀ (by norm_num), hsum]
  have hcoefficient {c : Nat} (hc : (c : ℚ) ≤ m * 2 ^ e / 10 ^ k + 1) : c ≤ 10 ^ (n + 1) := by
    have hlt : (c : ℚ) < 10 ^ (n + 1) + 1 := by linarith
    exact Nat.lt_succ_iff.mp (by exact_mod_cast hlt)
  rw [hab] at hd
  rcases List.mem_pair.mp hd with rfl | rfl
  · exact ⟨hk, hcoefficient ha⟩
  · exact ⟨hk, hcoefficient hb⟩

/-- On the grid of the seventeenth digit the nearer of the two points names the number. -/
theorem exists_mem_candidates_sixteen (hm : 0 < m) (hx : Representable (m * 2 ^ e)) :
    ∃ d ∈ candidates m e 16, nearest d.value = m * 2 ^ e := by
  obtain ⟨a, b, k, hk, hab, hnear, -⟩ := candidates_spec hm e 16
  refine ⟨_, hab ▸ List.mem_cons_self, nearest_eq_of_abs_sub_lt hx ?_⟩
  have hpos : (0 : ℚ) < m * 2 ^ e := by positivity
  have hgrid : (10 : ℚ) ^ k ≤ m * 2 ^ e * 10 ^ (-16 : ℤ) := by
    have hlog : (10 : ℚ) ^ Int.log 10 ((m : ℚ) * 2 ^ e) ≤ m * 2 ^ e := by
      exact_mod_cast Int.zpow_log_le_self (b := 10) (by norm_num) hpos
    rw [hk, sub_eq_add_neg, zpow_add₀ (by norm_num)]
    exact mul_le_mul_of_nonneg_right hlog (by positivity)
  have hunit : (0 : ℚ) < 10 ^ k := by positivity
  have hscaled : (a : ℚ) * 10 ^ k - m * 2 ^ e = (a - m * 2 ^ e / 10 ^ k) * 10 ^ k := by
    rw [sub_mul, div_mul_cancel₀ _ hunit.ne']
  have hhalf := mul_le_mul_of_nonneg_right hnear hunit.le
  rw [value]
  dsimp only
  rw [hscaled, abs_mul, abs_of_pos hunit, abs_of_pos hpos]
  generalize (10 : ℚ) ^ k = unit at *
  norm_num at hgrid ⊢
  linarith

/-- The search ends with the digit `i` or before if a point is a name there. -/
theorem exists_shortestOfBinary_eq (hm : 0 < m) (hx : Representable (m * 2 ^ e))
    (hlt : (m : ℚ) * 2 ^ e < 2 ^ (1024 : ℤ)) {i : Nat} (hi : i ≤ 16)
    (hnames : ∃ d ∈ candidates m e i, nearest d.value = m * 2 ^ e) :
    ∃ n ≤ i, ∃ d ∈ candidates m e n, shortestOfBinary m e = d.normalize ∧
      d.IsWrittenFor (m * 2 ^ e) := by
  have hpos : (0 : ℚ) < m * 2 ^ e := by positivity
  obtain ⟨hlo, hhi⟩ := log_bounds (le_of_representable_of_pos hx hpos) hlt
  have hnamed {n : Nat} (hn : n ≤ i) {d : Decimal} (hd : d ∈ candidates m e n) :
      d.toFloat = ofParts .positive m e ↔ nearest d.value = m * 2 ^ e := by
    refine toFloat_eq_ofParts_iff ?_ hm hx hlt
    rw [(of_mem_candidates hm hd).1, abs_le]
    omega
  obtain ⟨d, hd, hnearest⟩ := hnames
  have hends : ((candidates m e i).find? (·.toFloat = ofParts .positive m e)).isSome :=
    List.find?_isSome.mpr ⟨d, hd, decide_eq_true ((hnamed le_rfl hd).mpr hnearest)⟩
  obtain ⟨n, hn, d, hfound, hsearch⟩ := exists_findSome?_range (k := 17)
    (f := fun n ↦ (candidates m e n).find? (·.toFloat = ofParts .positive m e)) (by omega) hends
  have hmem := List.mem_of_find?_eq_some hfound
  have hfloat : d.toFloat = ofParts .positive m e := by simpa using List.find?_some hfound
  have hnearest := (hnamed hn hmem).mp hfloat
  obtain ⟨hexponent, hcoefficient⟩ := of_mem_candidates hm hmem
  refine ⟨n, hn, d, hmem, ?_, hnearest, Nat.pos_of_ne_zero ?_, ?_, by omega⟩
  · exact congrArg (fun found ↦ (found.getD (ofBinary m e)).normalize) hsearch
  · intro hzero
    rw [value, hzero, Nat.cast_zero, zero_mul, nearest_zero] at hnearest
    exact hpos.ne hnearest
  · exact hcoefficient.trans (Nat.pow_le_pow_right (by norm_num) (by omega))

/-- Seventeen digits are enough. -/
theorem isWrittenFor_shortestOfBinary (hm : 0 < m) (hx : Representable (m * 2 ^ e))
    (hlt : (m : ℚ) * 2 ^ e < 2 ^ (1024 : ℤ)) :
    (shortestOfBinary m e).IsWrittenFor (m * 2 ^ e) := by
  obtain ⟨_, _, d, _, hshortest, hwritten⟩ :=
    exists_shortestOfBinary_eq hm hx hlt le_rfl (exists_mem_candidates_sixteen hm hx)
  rw [hshortest]
  exact hwritten.normalize

/-! ## Whole numbers -/

/-- On the grid of the last digit before the point a whole number is itself a candidate. -/
theorem exists_mem_candidates_of_whole {t i : Nat} (hm : 0 < m) (ht : (m : ℚ) * 2 ^ e = t)
    (hle : t ≤ 2 ^ 53) (hi : Int.log 10 ((m : ℚ) * 2 ^ e) = i) :
    ∃ d ∈ candidates m e i, nearest d.value = m * 2 ^ e := by
  obtain ⟨a, b, k, hk, hab, hnear, -⟩ := candidates_spec hm e i
  obtain rfl : k = 0 := by omega
  rw [ht, zpow_zero, div_one] at hnear
  have hat : a = t := by
    have hlt : |((a : ℤ) - t : ℚ)| < 1 := by
      push_cast
      exact hnear.trans_lt (by norm_num)
    have hint : |(a : ℤ) - t| < 1 := by exact_mod_cast hlt
    rw [Int.abs_lt_one_iff] at hint
    omega
  refine ⟨_, hab ▸ List.mem_cons_self, ?_⟩
  rw [value, hat, ht, zpow_zero, mul_one, nearest_natCast hle]

/-- A decimal of few digits that names a whole number is this number. -/
theorem IsWrittenFor.mul_eq {c j t : Nat} (h : IsWrittenFor ⟨c, j⟩ t) (hle : c * 10 ^ j ≤ 2 ^ 53) :
    c * 10 ^ j = t := by
  have hvalue : (⟨c, j⟩ : Decimal).value = ((c * 10 ^ j : ℕ) : ℚ) := by
    rw [value, zpow_natCast]
    push_cast
    rfl
  have hnearest := h.nearest_eq
  rw [hvalue, nearest_natCast hle] at hnearest
  exact_mod_cast hnearest

/-- Of a whole number with a digit to spare all digits are written, and no others. -/
theorem exists_shortestOfBinary_eq_of_whole {t : Nat} (hm : 0 < m) (ht : (m : ℚ) * 2 ^ e = t)
    (hle : 10 * t ≤ 2 ^ 53) : ∃ c j : Nat, shortestOfBinary m e = ⟨c, j⟩ ∧ c * 10 ^ j = t := by
  have hx : Representable ((m : ℚ) * 2 ^ e) := by
    rw [← nearest_eq_self_iff, ht]
    exact nearest_natCast (by omega)
  have hpos : 0 < t := by
    have hvalue : (0 : ℚ) < m * 2 ^ e := by positivity
    rw [ht] at hvalue
    exact_mod_cast hvalue
  have hlt : (m : ℚ) * 2 ^ e < 2 ^ (53 : ℤ) := by
    rw [ht]
    exact_mod_cast (show t < 2 ^ 53 by omega)
  have hlog : Int.log 10 ((m : ℚ) * 2 ^ e) = (Nat.log 10 t : ℕ) := by
    rw [ht, Int.log_natCast]
  have hplace : Nat.log 10 t ≤ 16 :=
    Nat.lt_succ_iff.mp (Nat.log_lt_of_lt_pow hpos.ne' (by omega))
  obtain ⟨n, hn, ⟨c, k⟩, hd, hshortest, hwritten⟩ := exists_shortestOfBinary_eq hm hx
    (lt_two_zpow hlt (by norm_num)) hplace
    (exists_mem_candidates_of_whole hm ht (by omega) hlog)
  obtain ⟨hexponent, hcoefficient⟩ := of_mem_candidates hm hd
  dsimp only at hexponent hcoefficient
  obtain ⟨j, rfl⟩ : ∃ j : ℕ, k = j := ⟨Nat.log 10 t - n, by omega⟩
  have hbound : c * 10 ^ j ≤ 2 ^ 53 := by
    calc c * 10 ^ j ≤ 10 ^ (n + 1) * 10 ^ j := Nat.mul_le_mul_right _ hcoefficient
      _ = 10 * 10 ^ Nat.log 10 t := by
          rw [← pow_add, ← pow_succ']
          congr 1
          omega
      _ ≤ 10 * t := Nat.mul_le_mul_left _ (Nat.pow_log_le_self 10 hpos.ne')
      _ ≤ 2 ^ 53 := hle
  obtain ⟨z, a, rfl, hnormalize⟩ := exists_normalize_eq hwritten.pos j
  rw [ht] at hwritten
  refine ⟨a, j + z, ?_, ?_⟩
  · rw [hshortest, hnormalize]
    push_cast
    rfl
  · rw [← hwritten.mul_eq hbound]
    ring

/-! ## Numbers -/

variable {a : Float}

theorem shortest_of_unpack {s : Sign} {hm : 0 < m} (h : a.toModel.unpack = .finite s m e hm) :
    shortest a = shortestOfBinary m e := by
  rw [shortest, h]

theorem shortest_of_zero (h : value? a = some 0) : shortest a = ⟨0, 0⟩ := by
  obtain ⟨s, hu, -⟩ | ⟨s, m, e, hm, -, hzero⟩ := zero_or_finite h
  · rw [shortest, hu]
  · have hpos : (0 : ℚ) < m * 2 ^ e := by positivity
    rw [← abs_signed s, ← hzero, abs_zero] at hpos
    exact absurd rfl hpos.ne

theorem isWrittenFor_shortest (h : value? a = some x) (hx : x ≠ 0) :
    (shortest a).IsWrittenFor |x| := by
  have hcanonical := canonical_unpack a.toModel
  have hlt := abs_lt_of_value? h
  obtain ⟨s, hu, rfl⟩ | ⟨s, m, e, hm, hu, rfl⟩ := zero_or_finite h
  · exact absurd rfl hx
  · rw [hu] at hcanonical
    rw [abs_signed] at hlt ⊢
    rw [shortest_of_unpack hu]
    refine isWrittenFor_shortestOfBinary hm ⟨m, e, ?_, hcanonical.2.1, rfl⟩ hlt
    rw [Nat.abs_cast]
    exact_mod_cast hcanonical.1

theorem exists_shortest_eq_of_whole {t : Nat} (h : value? a = some x) (hx : |x| = t)
    (ht : 10 * t ≤ 2 ^ 53) : ∃ c j : Nat, shortest a = ⟨c, j⟩ ∧ c * 10 ^ j = t := by
  obtain ⟨s, hu, rfl⟩ | ⟨s, m, e, hm, hu, rfl⟩ := zero_or_finite h
  · rw [abs_zero, eq_comm, Nat.cast_eq_zero] at hx
    exact ⟨0, 0, shortest_of_zero h, by rw [hx, zero_mul]⟩
  · rw [abs_signed] at hx
    rw [shortest_of_unpack hu]
    exact exists_shortestOfBinary_eq_of_whole hm hx ht

end VectorQuery.Decimal
