import Mathlib
import VectorQuery.Number.Layout
import VectorQuery.Proofs.Json.Token

/-!
# Numbers in text

What is written for a decimal is read part by part, as a literal with the digits of the
decimal in it.  The literal stands for the same decimal, as it has no more digits than fit
into 64 bits; only that a whole number has a zero behind the point, which counts as one of
its digits (`Decimal.written`).
-/

namespace VectorQuery

namespace Number

open Nat (ofDigitChars)

/-! ## Taking digits -/

theorem le_ofDigitChars (n : Nat) (ds : List Char) : n ≤ ofDigitChars 10 ds n := by
  induction ds generalizing n with
  | nil => exact le_rfl
  | cons d ds ih =>
      rw [Nat.ofDigitChars_cons]
      exact (by omega : n ≤ 10 * n + (d.toNat - '0'.toNat)).trans (ih _)

/-- All digits are taken if they fit. -/
theorem takeDigits_eq {n : Nat} {ds : List Char} (h : ofDigitChars 10 ds n < UInt64.size) :
    takeDigits n ds = (ofDigitChars 10 ds n, []) := by
  induction ds generalizing n with
  | nil => rfl
  | cons d ds ih =>
      rw [Nat.ofDigitChars_cons] at h ⊢
      have hfits : 10 * n + digitValue d < UInt64.size := (le_ofDigitChars _ ds).trans_lt h
      rw [takeDigits, if_pos hfits]
      exact ih h

/-- A literal with digits that fit is the decimal with these digits. -/
theorem Literal.decimal_eq {l : Literal}
    (h : ofDigitChars 10 (l.whole ++ l.fraction.getD []) 0 < UInt64.size) :
    l.decimal = ⟨ofDigitChars 10 (l.whole ++ l.fraction.getD []) 0,
      l.exponent.getD 0 - (l.fraction.getD []).length⟩ := by
  rw [Nat.ofDigitChars_append] at h ⊢
  have hwhole := takeDigits_eq ((le_ofDigitChars _ _).trans_lt h)
  have hfraction := takeDigits_eq h
  simp only [decimal, hwhole, hfraction]
  simp

theorem Literal.integer?_of_fraction {l : Literal} (h : l.fraction.isSome) :
    l.integer? = none := by
  obtain ⟨negative, whole, fraction, exponent⟩ := l
  cases fraction with
  | none => cases h
  | some _ => rfl

theorem Literal.integer?_of_exponent {l : Literal} (h : l.exponent.isSome) :
    l.integer? = none := by
  obtain ⟨negative, whole, fraction, exponent⟩ := l
  cases exponent with
  | none => cases h
  | some _ => cases fraction <;> rfl

end Number

namespace Json.NumberText

open Number (Literal Layout positional scientific)

/-! ## Parts of a literal -/

section Parts

variable {ds rest : List Char} (hds : ∀ d ∈ ds, d.isDigit) (hne : ds ≠ [])
  (hrest : ∀ c ∈ rest.head?, ¬ c.isDigit)
include hds hrest

theorem digits_append : digits (ds ++ rest) = (ds, rest) := by
  rw [digits, List.takeWhile_append_of_pos hds, List.dropWhile_append_of_pos hds,
    Token.takeWhile_of_head? hrest, Token.dropWhile_of_head? hrest, List.append_nil]

include hne

theorem whole?_append (hzero : ds.head? = some '0' → ds = ['0']) :
    whole? (ds ++ rest) = some (ds, rest) := by
  rw [whole?, digits_append hds hrest]
  split
  case h_1 heq => exact absurd (congrArg Prod.fst heq) hne
  case h_2 heq => rw [heq]
  case h_3 hsingle heq =>
    obtain rfl := congrArg Prod.fst heq
    exact absurd (List.cons.inj (hzero rfl)).2 hsingle
  case h_4 => rfl

theorem fraction?_append : fraction? ('.' :: (ds ++ rest)) = some (some ds, rest) := by
  rw [fraction?, digits_append hds hrest]
  split
  case h_1 heq => exact absurd (congrArg Prod.fst heq) hne
  case h_2 heq =>
    obtain ⟨rfl, rfl⟩ := Prod.mk.inj heq
    rfl

end Parts

theorem not_isDigit_of_head?_cons {c : Char} {rest : List Char} (hc : ¬ c.isDigit) :
    ∀ d ∈ (c :: rest).head?, ¬ d.isDigit := by
  rintro d hd
  obtain rfl := Option.some.inj hd
  exact hc

theorem exponentDigits?_toDigits (n : Nat) : exponentDigits? (Nat.toDigits 10 n) = some n := by
  have hds : ∀ d ∈ Nat.toDigits 10 n, d.isDigit :=
    fun d hd ↦ Nat.isDigit_of_mem_toDigits (by norm_num) (by norm_num) hd
  have hdigits : digits (Nat.toDigits 10 n ++ []) = _ := digits_append hds nofun
  rw [List.append_nil] at hdigits
  rw [exponentDigits?, hdigits]
  split
  case h_1 heq => exact absurd (congrArg Prod.fst heq) Nat.toDigits_ne_nil
  case h_2 heq =>
    obtain ⟨rfl, -⟩ := Prod.mk.inj heq
    exact congrArg some Nat.ofDigitChars_ten_toDigits
  case h_3 hrest => exact absurd rfl (hrest _)

/-! ## Literals -/

/-- An exponent with its sign, if there is one. -/
def exponentText : Option Int → List Char
  | none => []
  | some k => 'e' :: (if k < 0 then '-' else '+') :: Nat.toDigits 10 k.natAbs

/-- The digits behind the point, if there are any. -/
def fractionText : Option (List Char) → List Char
  | none => []
  | some ds => '.' :: ds

/-- A literal without its sign. -/
def unsignedText (l : Literal) : List Char :=
  l.whole ++ (fractionText l.fraction ++ exponentText l.exponent)

/-- The parts of a literal have digits, and the first one has no superfluous zeros. -/
structure IsProper (l : Literal) : Prop where
  whole : ∀ d ∈ l.whole, d.isDigit
  whole_ne_nil : l.whole ≠ []
  zero : l.whole.head? = some '0' → l.whole = ['0']
  fraction : ∀ ds ∈ l.fraction, ds ≠ [] ∧ ∀ d ∈ ds, d.isDigit

theorem exponent?_exponentText (e : Option Int) : exponent? (exponentText e) = some e := by
  cases e with
  | none => rfl
  | some k =>
      by_cases hk : k < 0
      · rw [exponentText, if_pos hk, exponent?, if_pos (.inl rfl), exponentDigits?_toDigits]
        exact congrArg (fun k ↦ some (some k)) (by omega : -(k.natAbs : Int) = k)
      · rw [exponentText, if_neg hk, exponent?, if_pos (.inl rfl), exponentDigits?_toDigits]
        exact congrArg (fun k ↦ some (some k)) (by omega : (k.natAbs : Int) = k)

theorem not_isDigit_of_head?_exponentText (e : Option Int) :
    ∀ c ∈ (exponentText e).head?, ¬ c.isDigit := by
  cases e with
  | none => nofun
  | some k => exact not_isDigit_of_head?_cons (by decide)

theorem fraction?_fractionText {fraction : Option (List Char)}
    (h : ∀ ds ∈ fraction, ds ≠ [] ∧ ∀ d ∈ ds, d.isDigit) (e : Option Int) :
    fraction? (fractionText fraction ++ exponentText e) = some (fraction, exponentText e) := by
  cases fraction with
  | none => cases e <;> rfl
  | some ds =>
      obtain ⟨hne, hds⟩ := h ds rfl
      exact fraction?_append hds hne (not_isDigit_of_head?_exponentText e)

/-- The text of a literal is read as this literal. -/
theorem unsigned?_unsignedText {l : Literal} (h : IsProper l) :
    unsigned? l.negative (unsignedText l) = some l := by
  have hrest : ∀ c ∈ (fractionText l.fraction ++ exponentText l.exponent).head?, ¬ c.isDigit := by
    cases l.fraction with
    | none => exact not_isDigit_of_head?_exponentText _
    | some ds => exact not_isDigit_of_head?_cons (by decide)
  rw [unsigned?, unsignedText, whole?_append h.whole h.whole_ne_nil hrest h.zero]
  simp only [Option.bind_eq_bind, Option.bind_some, fraction?_fractionText h.fraction,
    exponent?_exponentText]
  rfl

/-! ## Decimals -/

/-- The digits of a whole number. -/
structure DigitsOf (ds : List Char) (c : Nat) : Prop where
  isDigit : ∀ d ∈ ds, d.isDigit
  ne_nil : ds ≠ []
  zero : ds.head? = some '0' → ds = ['0']
  value : Nat.ofDigitChars 10 ds 0 = c

theorem head?_toDigits_ne_zero {c : Nat} (hc : 0 < c) : (Nat.toDigits 10 c).head? ≠ some '0' := by
  induction c using Nat.strong_induction_on with
  | _ c ih =>
      rcases Nat.lt_or_ge c 10 with hlt | hle
      · rw [Nat.toDigits_of_lt_base hlt]
        interval_cases c <;> decide
      · rw [Nat.toDigits_of_base_le (by norm_num) hle,
          List.head?_append_of_ne_nil _ Nat.toDigits_ne_nil]
        exact ih (c / 10) (by omega) (by omega)

theorem digitsOf_toDigits (c : Nat) : DigitsOf (Nat.toDigits 10 c) c where
  isDigit _ hd := Nat.isDigit_of_mem_toDigits (by norm_num) (by norm_num) hd
  ne_nil := Nat.toDigits_ne_nil
  zero h := by
    rcases Nat.eq_zero_or_pos c with rfl | hc
    · rfl
    · exact absurd h (head?_toDigits_ne_zero hc)
  value := Nat.ofDigitChars_ten_toDigits

/-- A text is a literal that is not an integer, with digits that stand for a decimal. -/
def IsLiteralOf (text : List Char) (d : Decimal) : Prop :=
  ∀ negative, ∃ l : Literal, IsProper l ∧ l.negative = negative ∧ text = unsignedText l ∧
    l.integer? = none ∧ l.decimal = d

variable {ds : List Char} {c : Nat} (h : DigitsOf ds c)
include h

theorem isLiteralOf_positional_of_nonneg {n : Nat} (hzero : c = 0 → n = 0)
    (hfits : c * 10 ^ (n + 1) < UInt64.size) :
    IsLiteralOf (positional ds n) ⟨c * 10 ^ (n + 1), -1⟩ := by
  intro negative
  have hvalue : Nat.ofDigitChars 10 (ds ++ List.replicate n '0' ++ ['0']) 0 = c * 10 ^ (n + 1) := by
    rw [List.append_assoc, ← List.replicate_succ', Nat.ofDigitChars_append, h.value,
      Nat.ofDigitChars_replicate_zero, mul_comm]
  have hproper : IsProper ⟨negative, ds ++ List.replicate n '0', some ['0'], none⟩ := {
    whole := by
      intro d hd
      rcases List.mem_append.mp hd with hd | hd
      · exact h.isDigit d hd
      · rw [List.eq_of_mem_replicate hd]
        rfl
    whole_ne_nil := List.append_ne_nil_of_left_ne_nil h.ne_nil _
    zero := by
      dsimp only
      rw [List.head?_append_of_ne_nil _ h.ne_nil]
      intro hhead
      have hc : c = 0 := by rw [← h.value, h.zero hhead]; rfl
      rw [hzero hc, h.zero hhead]
      rfl
    fraction := by
      rintro ds hds
      obtain rfl := Option.some.inj hds
      exact ⟨by simp, by simp⟩ }
  refine ⟨_, hproper, rfl, ?_, Literal.integer?_of_fraction rfl, ?_⟩
  · rw [positional, if_pos (by omega), Int.toNat_natCast]
    rfl
  · refine (Literal.decimal_eq (hvalue.trans_lt hfits)).trans ?_
    simp only [Option.getD_some, hvalue]
    rfl

/-- All digits stand behind the point, with zeros in front of them. -/
theorem isLiteralOf_positional_of_length_le {n : Nat} (hn : 0 < n) (hle : ds.length ≤ n)
    (hfits : c < UInt64.size) : IsLiteralOf (positional ds (-n)) ⟨c, -n⟩ := by
  intro negative
  have hvalue : Nat.ofDigitChars 10
      (['0'] ++ (List.replicate (n - ds.length) '0' ++ ds)) 0 = c := by
    rw [← List.append_assoc, ← List.replicate_one, List.replicate_append_replicate,
      Nat.ofDigitChars_append, Nat.ofDigitChars_replicate_zero, mul_zero, h.value]
  have hproper : IsProper
      ⟨negative, ['0'], some (List.replicate (n - ds.length) '0' ++ ds), none⟩ := {
    whole := by simp
    whole_ne_nil := by simp
    zero := fun _ ↦ rfl
    fraction := by
      rintro ds' hds
      obtain rfl := Option.some.inj hds
      refine ⟨List.append_ne_nil_of_right_ne_nil _ h.ne_nil, fun d hd ↦ ?_⟩
      rcases List.mem_append.mp hd with hd | hd
      · rw [List.eq_of_mem_replicate hd]
        rfl
      · exact h.isDigit d hd }
  refine ⟨_, hproper, rfl, ?_, Literal.integer?_of_fraction rfl, ?_⟩
  · rw [positional, if_neg (by omega), neg_neg, Int.toNat_natCast]
    dsimp only
    rw [if_pos (by omega)]
    simp [unsignedText, fractionText, exponentText]
  · refine (Literal.decimal_eq (hvalue.trans_lt hfits)).trans ?_
    simp only [Option.getD_some, hvalue, Option.getD_none, List.length_append,
      List.length_replicate]
    congr 1
    omega

/-- The point stands among the digits. -/
theorem isLiteralOf_positional_of_lt_length {n : Nat} (hn : 0 < n) (hlt : n < ds.length)
    (hfits : c < UInt64.size) : IsLiteralOf (positional ds (-n)) ⟨c, -n⟩ := by
  intro negative
  have hvalue : Nat.ofDigitChars 10
      (ds.take (ds.length - n) ++ ds.drop (ds.length - n)) 0 = c := by
    rw [List.take_append_drop, h.value]
  have hproper : IsProper
      ⟨negative, ds.take (ds.length - n), some (ds.drop (ds.length - n)), none⟩ := {
    whole := fun d hd ↦ h.isDigit d (List.mem_of_mem_take hd)
    whole_ne_nil := by
      rw [Ne, List.take_eq_nil_iff, not_or]
      exact ⟨by omega, h.ne_nil⟩
    zero := by
      intro hhead
      dsimp only at hhead ⊢
      rw [List.head?_take, if_neg (by omega)] at hhead
      have hlength := congrArg List.length (h.zero hhead)
      rw [List.length_singleton] at hlength
      omega
    fraction := by
      rintro ds' hds
      obtain rfl := Option.some.inj hds
      refine ⟨?_, fun d hd ↦ h.isDigit d (List.mem_of_mem_drop hd)⟩
      rw [Ne, List.drop_eq_nil_iff]
      omega }
  refine ⟨_, hproper, rfl, ?_, Literal.integer?_of_fraction rfl, ?_⟩
  · rw [positional, if_neg (by omega), neg_neg, Int.toNat_natCast]
    dsimp only
    rw [if_neg (by omega)]
    simp [unsignedText, fractionText, exponentText]
  · refine (Literal.decimal_eq (hvalue.trans_lt hfits)).trans ?_
    simp only [Option.getD_some, hvalue, Option.getD_none, List.length_drop]
    congr 1
    omega

theorem isLiteralOf_scientific (hfits : c < UInt64.size) (k : Int) :
    IsLiteralOf (scientific ds k) ⟨c, k - (ds.length - 1)⟩ := by
  intro negative
  obtain ⟨d, ds, rfl⟩ := List.exists_cons_of_ne_nil h.ne_nil
  have hdigits := List.forall_mem_cons.mp h.isDigit
  have hproper (fraction : Option (List Char))
      (hfraction : ∀ ds ∈ fraction, ds ≠ [] ∧ ∀ d ∈ ds, d.isDigit) :
      IsProper ⟨negative, [d], fraction, some k⟩ := {
    whole := by simpa using hdigits.1
    whole_ne_nil := by simp
    zero := by simp
    fraction := hfraction }
  cases ds with
  | nil =>
      refine ⟨_, hproper none nofun, rfl, ?_, Literal.integer?_of_exponent rfl, ?_⟩
      · simp [scientific, unsignedText, fractionText, exponentText]
      · have hvalue := h.value
        refine (Literal.decimal_eq (l := ⟨negative, [d], none, some k⟩)
          (hvalue.trans_lt hfits)).trans ?_
        simp [hvalue]
  | cons d' ds =>
      refine ⟨_, hproper (some (d' :: ds)) ?_, rfl, ?_, Literal.integer?_of_exponent rfl, ?_⟩
      · rintro ds' hds
        obtain rfl := Option.some.inj hds
        exact ⟨by simp, hdigits.2⟩
      · simp [scientific, unsignedText, fractionText, exponentText]
      · have hvalue := h.value
        refine (Literal.decimal_eq (l := ⟨negative, [d], some (d' :: ds), some k⟩)
          (hvalue.trans_lt hfits)).trans ?_
        simp [hvalue]

end Json.NumberText

/-- The decimal that the digits written for another one stand for.  A whole number without an
exponent has a zero behind the point. -/
def Decimal.written (d : Decimal) : Decimal :=
  if 0 ≤ d.exponent ∧ (Nat.toDigits 10 d.coefficient).length + d.exponent ≤ 16 then
    ⟨d.coefficient * 10 ^ (d.exponent.toNat + 1), -1⟩
  else d

namespace Json.NumberText

open Number (Literal Layout)

theorem lt_ten_pow_length_toDigits (c : Nat) : c < 10 ^ (Nat.toDigits 10 c).length :=
  (Nat.length_toDigits_le_iff (by norm_num) Nat.length_toDigits_pos).mp le_rfl

theorem decimal_json (c : Nat) (e : Int) :
    Layout.json.decimal ⟨c, e⟩ =
      if -5 ≤ ((Nat.toDigits 10 c).length : Int) - 1 + e ∧
          ((Nat.toDigits 10 c).length : Int) - 1 + e < 16 then
        Number.positional (Nat.toDigits 10 c) e
      else Number.scientific (Nat.toDigits 10 c) ((Nat.toDigits 10 c).length - 1 + e) :=
  rfl

/-- What is written for a decimal. -/
theorem isLiteralOf_decimal {d : Decimal} (hzero : d.coefficient = 0 → d.exponent = 0)
    (hle : d.coefficient ≤ 10 ^ 17) : IsLiteralOf (Layout.json.decimal d) d.written := by
  obtain ⟨c, e⟩ := d
  dsimp only at hzero hle
  have hdigits := digitsOf_toDigits c
  have hlength := lt_ten_pow_length_toDigits c
  have hpos : 0 < (Nat.toDigits 10 c).length := Nat.length_toDigits_pos
  have hfits : c < UInt64.size := hle.trans_lt (by decide)
  rw [decimal_json, Decimal.written]
  dsimp only
  generalize Nat.toDigits 10 c = ds at *
  by_cases hpositional : -5 ≤ (ds.length : ℤ) - 1 + e ∧ (ds.length : ℤ) - 1 + e < 16
  · rw [if_pos hpositional]
    rcases le_or_gt 0 e with he | he
    · obtain ⟨n, rfl⟩ := Int.eq_ofNat_of_zero_le he
      rw [if_pos (by omega), Int.toNat_natCast]
      refine isLiteralOf_positional_of_nonneg hdigits (fun hc ↦ by simpa using hzero hc) ?_
      calc c * 10 ^ (n + 1) < 10 ^ ds.length * 10 ^ (n + 1) :=
            Nat.mul_lt_mul_of_pos_right hlength (by positivity)
        _ = 10 ^ (ds.length + (n + 1)) := (pow_add _ _ _).symm
        _ ≤ 10 ^ 17 := Nat.pow_le_pow_right (by norm_num) (by omega)
        _ < UInt64.size := by decide
    · obtain ⟨n, rfl⟩ : ∃ n : ℕ, e = -n := ⟨(-e).toNat, by omega⟩
      rw [if_neg (by omega)]
      rcases Nat.lt_or_ge n ds.length with hlt | hge
      · exact isLiteralOf_positional_of_lt_length hdigits (by omega) hlt hfits
      · exact isLiteralOf_positional_of_length_le hdigits (by omega) hge hfits
  · rw [if_neg hpositional, if_neg (by omega)]
    have hliteral := isLiteralOf_scientific hdigits hfits (ds.length - 1 + e)
    rwa [add_sub_cancel_left] at hliteral

/-! ## Words -/

variable {text : List Char} {d : Decimal}

theorem isWordChar_of_isDigit {c : Char} (h : c.isDigit) : Token.isWordChar c := by
  simp [Token.isWordChar, Char.isAlphanum, h]

theorem isWordChar_of_mem_unsignedText {l : Literal} (h : IsProper l) :
    ∀ c ∈ unsignedText l, Token.isWordChar c := by
  intro c hc
  rw [unsignedText, List.mem_append, List.mem_append] at hc
  rcases hc with hc | hc | hc
  · exact isWordChar_of_isDigit (h.whole c hc)
  · cases hfraction : l.fraction with
    | none =>
        rw [hfraction] at hc
        cases hc
    | some ds =>
        rw [hfraction, fractionText, List.mem_cons] at hc
        rcases hc with rfl | hc
        · rfl
        · exact isWordChar_of_isDigit ((h.fraction ds hfraction).2 c hc)
  · cases hexponent : l.exponent with
    | none =>
        rw [hexponent] at hc
        cases hc
    | some k =>
        rw [hexponent, exponentText, List.mem_cons, List.mem_cons] at hc
        rcases hc with rfl | rfl | hc
        · rfl
        · split <;> rfl
        · exact isWordChar_of_isDigit (Nat.isDigit_of_mem_toDigits (by norm_num) (by norm_num) hc)

/-- A literal behind its sign is a word. -/
theorem ofWord?_of_literal? {l : Literal} (h : literal? text = some l) :
    Token.ofWord? text = some (token l) := by
  unfold Token.ofWord?
  split <;> first | cases h | rw [h, Option.map_some]

/-- A literal without a sign does not start with one. -/
theorem literal?_unsignedText {l : Literal} (h : IsProper l) :
    literal? (unsignedText l) = unsigned? false (unsignedText l) := by
  obtain ⟨d, ds, hds⟩ := List.exists_cons_of_ne_nil h.whole_ne_nil
  have hdigit := h.whole d (hds ▸ List.mem_cons_self)
  rw [unsignedText, hds, List.cons_append, literal?]
  rintro cs hcs
  obtain ⟨rfl, -⟩ := List.cons.inj hcs
  exact absurd hdigit (by decide)

/-- A literal behind its sign is read as a literal with this sign. -/
theorem exists_literal?_signed (h : IsLiteralOf text d) (negative : Bool) :
    ∃ l : Literal, literal? (if negative then '-' :: text else text) = some l ∧
      l.integer? = none ∧ l.negative = negative ∧ l.decimal = d := by
  obtain ⟨l, hproper, hnegative, htext, hinteger, hdecimal⟩ := h negative
  refine ⟨l, ?_, hinteger, hnegative, hdecimal⟩
  have hread := unsigned?_unsignedText hproper
  rw [htext]
  cases hsign : negative with
  | true =>
      rw [hnegative, hsign] at hread
      exact hread
  | false =>
      rw [hnegative, hsign] at hread
      exact (literal?_unsignedText hproper).trans hread

variable {x : Float} (h : IsLiteralOf (Layout.json.decimal (.shortest x)) d)
include h

/-- All of it belongs to one word. -/
theorem isWordChar_of_mem_number : ∀ c ∈ Layout.json.number x, Token.isWordChar c := by
  obtain ⟨l, hproper, -, htext, -⟩ := h false
  have hchars := isWordChar_of_mem_unsignedText hproper
  rw [Layout.number, htext]
  cases Number.isNegative x with
  | true => exact List.forall_mem_cons.mpr ⟨rfl, hchars⟩
  | false => exact hchars

end Json.NumberText

end VectorQuery
