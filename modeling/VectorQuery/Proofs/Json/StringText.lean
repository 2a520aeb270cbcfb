import Mathlib.Data.List.Forall2
import Mathlib.Data.String.Basic
import VectorQuery.Json.Token
import VectorQuery.Json.Writer

/-!
# The text of strings

What stands between two quotation marks spells characters: a character for itself, unless
it has to be escaped, one of eight letters behind a backslash, or one or two code units of
UTF-16 in hexadecimal digits.  A string is read exactly if its text spells characters, and
what is read are these; the text that is written for characters spells them.
-/

namespace VectorQuery.Json.StringText

/-! ## Spelling -/

/-- The letters that stand for a character behind a backslash. -/
def escapes : List (Char × Char) :=
  [('"', '"'), ('\\', '\\'), ('/', '/'), ('b', '\x08'), ('f', '\x0c'), ('n', '\n'),
    ('r', '\r'), ('t', '\t')]

/-- A hexadecimal digit, as a small or a capital letter from ten on. -/
def IsHexDigit (c : Char) (n : Nat) : Prop :=
  n < 16 ∧ (c = n.digitChar ∨ c = n.digitChar.toUpper)

/-- The four hexadecimal digits of a code unit. -/
def IsCodeUnit (text : List Char) (n : Nat) : Prop :=
  List.Forall₂ IsHexDigit text [n / 4096, n / 256 % 16, n / 16 % 16, n % 16]

/-- The characters that a text spells. -/
inductive Spells : List Char → List Char → Prop
  | nil : Spells [] []
  | char {c : Char} {text s : List Char} (hquote : c ≠ '"') (hbackslash : c ≠ '\\')
      (hspace : ' ' ≤ c) (h : Spells text s) : Spells (c :: text) (c :: s)
  | escape {letter c : Char} {text s : List Char} (hletter : (letter, c) ∈ escapes)
      (h : Spells text s) : Spells ('\\' :: letter :: text) (c :: s)
  | codeUnit {c : Char} {unit text s : List Char} (hunit : IsCodeUnit unit c.toNat)
      (h : Spells text s) : Spells ('\\' :: 'u' :: unit ++ text) (c :: s)
  | surrogates {c : Char} {high low text s : List Char} (hc : 0x10000 ≤ c.toNat)
      (hhigh : IsCodeUnit high (0xd800 + (c.toNat - 0x10000) / 0x400))
      (hlow : IsCodeUnit low (0xdc00 + (c.toNat - 0x10000) % 0x400))
      (h : Spells text s) :
      Spells ('\\' :: 'u' :: high ++ '\\' :: 'u' :: low ++ text) (c :: s)

theorem escape?_eq_some_iff {letter c : Char} :
    escape? letter = some c ↔ (letter, c) ∈ escapes := by
  constructor
  · intro h
    unfold escape? at h
    split at h <;> simp only [reduceCtorEq, Option.some.injEq] at h <;> simp [escapes, ← h]
  · intro h
    simp only [escapes, List.mem_cons, Prod.mk.injEq, List.not_mem_nil, or_false] at h
    rcases h with ⟨rfl, rfl⟩ | ⟨rfl, rfl⟩ | ⟨rfl, rfl⟩ | ⟨rfl, rfl⟩ | ⟨rfl, rfl⟩ | ⟨rfl, rfl⟩ |
      ⟨rfl, rfl⟩ | ⟨rfl, rfl⟩ <;> rfl

theorem hexDigit?_digitChar {n : Nat} (h : n < 16) :
    hexDigit? n.digitChar = some n ∧ hexDigit? n.digitChar.toUpper = some n := by
  revert n
  decide

instance (c : Char) (n : Nat) : Decidable (IsHexDigit c n) :=
  inferInstanceAs (Decidable (_ ∧ _))

/-- Up to the letter `f`, what has a value is a hexadecimal digit of this value. -/
theorem isHexDigit_of_lt {m : Nat} (hm : m < 'g'.toNat) :
    ∀ n ∈ hexDigit? (Char.ofNat m), IsHexDigit (Char.ofNat m) n := by
  revert m
  decide

theorem hexDigit?_eq_some_iff {c : Char} {n : Nat} :
    hexDigit? c = some n ↔ IsHexDigit c n := by
  constructor
  · intro h
    have hc : c.toNat < 'g'.toNat := by
      by_contra hc
      have h₀ : ¬ c ≤ '9' := fun hle ↦ hc (Nat.lt_of_le_of_lt hle (by decide))
      have h₁ : ¬ c ≤ 'f' := fun hle ↦ hc (Nat.lt_of_le_of_lt hle (by decide))
      have h₂ : ¬ c ≤ 'F' := fun hle ↦ hc (Nat.lt_of_le_of_lt hle (by decide))
      simp [hexDigit?, h₀, h₁, h₂] at h
    rw [← Char.ofNat_toNat c] at h ⊢
    exact isHexDigit_of_lt hc n h
  · rintro ⟨hn, rfl | rfl⟩
    · exact (hexDigit?_digitChar hn).1
    · exact (hexDigit?_digitChar hn).2

theorem codeUnit?_eq_some_iff {a b c d : Char} {n : Nat} :
    codeUnit? a b c d = some n ↔ IsCodeUnit [a, b, c, d] n := by
  simp only [codeUnit?, IsCodeUnit, Option.bind_eq_bind, Option.bind_eq_some_iff,
    hexDigit?_eq_some_iff, Option.pure_def, Option.some.injEq, List.forall₂_cons,
    List.forall₂_nil_left_iff, and_true]
  constructor
  · rintro ⟨i, hi, j, hj, k, hk, l, hl, rfl⟩
    have hbounds : j < 16 ∧ k < 16 ∧ l < 16 := ⟨hj.1, hk.1, hl.1⟩
    refine ⟨?_, ?_, ?_, ?_⟩
    · rwa [show (((i * 16 + j) * 16 + k) * 16 + l) / 4096 = i by omega]
    · rwa [show (((i * 16 + j) * 16 + k) * 16 + l) / 256 % 16 = j by omega]
    · rwa [show (((i * 16 + j) * 16 + k) * 16 + l) / 16 % 16 = k by omega]
    · rwa [show (((i * 16 + j) * 16 + k) * 16 + l) % 16 = l by omega]
  · rintro ⟨hi, hj, hk, hl⟩
    exact ⟨_, hi, _, hj, _, hk, _, hl, by omega⟩

theorem IsCodeUnit.eq_four {text : List Char} {n : Nat} (h : IsCodeUnit text n) :
    ∃ a b c d, text = [a, b, c, d] ∧ codeUnit? a b c d = some n := by
  have hlength := h.length_eq
  match text, hlength with
  | [a, b, c, d], _ => exact ⟨a, b, c, d, rfl, codeUnit?_eq_some_iff.mpr h⟩

theorem IsCodeUnit.lt {text : List Char} {n : Nat} (h : IsCodeUnit text n) : n < 0x10000 := by
  obtain ⟨a, b, c, d, rfl, -⟩ := h.eq_four
  have hdigit : n / 4096 < 16 := (List.forall₂_cons.mp h).1.1
  omega

/-! ## Pieces -/

/-- The pieces that a text is cut into. -/
inductive Pieces : List Char → List Piece → Prop
  | nil : Pieces [] []
  | char {c : Char} {text : List Char} {pieces : List Piece} (hquote : c ≠ '"')
      (hbackslash : c ≠ '\\') (hspace : ' ' ≤ c) (h : Pieces text pieces) :
      Pieces (c :: text) (.char c :: pieces)
  | escape {letter c : Char} {text : List Char} {pieces : List Piece}
      (hletter : (letter, c) ∈ escapes) (h : Pieces text pieces) :
      Pieces ('\\' :: letter :: text) (.char c :: pieces)
  | codeUnit {unit text : List Char} {n : Nat} {pieces : List Piece}
      (hunit : IsCodeUnit unit n) (h : Pieces text pieces) :
      Pieces ('\\' :: 'u' :: unit ++ text) (.unit n :: pieces)

theorem scan_char {c : Char} (hquote : c ≠ '"') (hbackslash : c ≠ '\\') (hspace : ' ' ≤ c)
    (text : List Char) : scan (c :: text) = before (.char c) (scan text) := by
  have hnat : ¬ c.toNat < 0x20 := Nat.not_lt.mpr hspace
  rw [scan, if_neg hnat]
  · exact hquote
  · intros
    exact absurd ‹c = '\\'› hbackslash
  · intros
    exact absurd ‹c = '\\'› hbackslash

theorem scan_escape {letter c : Char} (h : (letter, c) ∈ escapes) (text : List Char) :
    scan ('\\' :: letter :: text) = before (.char c) (scan text) := by
  have hu : letter ≠ 'u' := by
    rintro rfl
    revert h
    simp [escapes]
  rw [scan, escape?_eq_some_iff.mpr h]
  rintro a b c d rest rfl
  exact absurd rfl hu

theorem scan_of_pieces {text rest : List Char} {pieces : List Piece} (h : Pieces text pieces) :
    scan (text ++ '"' :: rest) = some (pieces, rest) := by
  induction h with
  | nil => rw [List.nil_append, scan]
  | char hquote hbackslash hspace _ ih =>
      rw [List.cons_append, scan_char hquote hbackslash hspace, ih, before, Option.map_some]
  | escape hletter _ ih =>
      rw [List.cons_append, List.cons_append, scan_escape hletter, ih, before, Option.map_some]
  | codeUnit hunit _ ih =>
      obtain ⟨a, b, c, d, rfl, hvalue⟩ := hunit.eq_four
      simp only [List.cons_append, List.nil_append, scan, hvalue, ih, before, Option.map_some]

theorem pieces_of_scan {text rest : List Char} {pieces : List Piece}
    (h : scan text = some (pieces, rest)) :
    ∃ spelled, Pieces spelled pieces ∧ text = spelled ++ '"' :: rest := by
  fun_induction scan text generalizing pieces rest with
  | case1 =>
      obtain ⟨rfl, rfl⟩ : [] = pieces ∧ _ = rest := by simpa using h
      exact ⟨[], .nil, rfl⟩
  | case2 | case4 | case6 | case8 => cases h
  | case3 a b c d text unit hunit ih =>
      obtain ⟨pieces, hscan, rfl⟩ := before_eq_some.mp h
      obtain ⟨spelled, hpieces, rfl⟩ := ih hscan
      exact ⟨_, hpieces.codeUnit (codeUnit?_eq_some_iff.mp hunit), rfl⟩
  | case5 letter text _ c hc ih =>
      obtain ⟨pieces, hscan, rfl⟩ := before_eq_some.mp h
      obtain ⟨spelled, hpieces, rfl⟩ := ih hscan
      exact ⟨_, hpieces.escape (escape?_eq_some_iff.mp hc), rfl⟩
  | case7 c text hquote _ hbackslash hspace ih =>
      obtain ⟨pieces, hscan, rfl⟩ := before_eq_some.mp h
      obtain ⟨spelled, hpieces, rfl⟩ := ih hscan
      -- A backslash with nothing but the closing mark behind it would be an escape.
      have hslash : c ≠ '\\' := fun hc ↦ by
        cases hpieces with
        | nil => exact hbackslash _ _ hc rfl
        | char | escape | codeUnit => exact hbackslash _ _ hc rfl
      exact ⟨_, hpieces.char hquote hslash (Nat.not_lt.mp hspace), rfl⟩

/-! ## Characters -/

theorem toNat_ofNat {n : Nat} (h : n.isValidChar) : (Char.ofNat n).toNat = n := by
  rw [Char.ofNat, dif_pos h]
  rfl

theorem isValidChar_toNat (c : Char) : c.toNat.isValidChar := c.valid

theorem characters?_codeUnit (c : Char) (pieces : List Piece) :
    characters? (.unit c.toNat :: pieces) = (characters? pieces).map (c :: ·) := by
  have hvalid := isValidChar_toNat c
  simp only [Nat.isValidChar] at hvalid
  have hhigh : isHighSurrogate c.toNat = false := by
    simp only [isHighSurrogate, Bool.and_eq_false_iff, decide_eq_false_iff_not]
    omega
  have hlow : isLowSurrogate c.toNat = false := by
    simp only [isLowSurrogate, Bool.and_eq_false_iff, decide_eq_false_iff_not]
    omega
  cases pieces with
  | nil => simp [characters?, hhigh, hlow]
  | cons piece pieces => cases piece <;> simp [characters?, hhigh, hlow]

theorem characters?_surrogates {high low : Nat} (hhigh : isHighSurrogate high)
    (hlow : isLowSurrogate low) (pieces : List Piece) :
    characters? (.unit high :: .unit low :: pieces) =
      (characters? pieces).map (ofPair high low :: ·) := by
  rw [characters?, if_pos hhigh, if_pos hlow]

/-- A code unit that is no half of a surrogate pair is a character. -/
theorem isValidChar_of_not_surrogate {n : Nat} (hn : n < 0x10000) (hhigh : ¬ isHighSurrogate n)
    (hlow : ¬ isLowSurrogate n) : n.isValidChar := by
  simp only [isHighSurrogate, isLowSurrogate, Bool.and_eq_true, decide_eq_true_eq] at hhigh hlow
  simp only [Nat.isValidChar]
  omega

/-- The halves of a surrogate pair make up a character, and that is the pair of this one. -/
theorem ofPair_eq_iff {high low : Nat} {c : Char} :
    isHighSurrogate high ∧ isLowSurrogate low ∧ ofPair high low = c ↔
      0x10000 ≤ c.toNat ∧ high = 0xd800 + (c.toNat - 0x10000) / 0x400 ∧
        low = 0xdc00 + (c.toNat - 0x10000) % 0x400 := by
  simp only [isHighSurrogate, isLowSurrogate, Bool.and_eq_true, decide_eq_true_eq]
  constructor
  · rintro ⟨hhigh, hlow, rfl⟩
    have hvalid : (0x10000 + (high - 0xd800) * 0x400 + (low - 0xdc00)).isValidChar := by
      simp only [Nat.isValidChar]
      omega
    have htoNat := toNat_ofNat hvalid
    rw [← ofPair] at htoNat
    omega
  · rintro ⟨hc, hhigh, hlow⟩
    have hvalid := isValidChar_toNat c
    simp only [Nat.isValidChar] at hvalid
    refine ⟨by omega, by omega, ?_⟩
    calc ofPair high low = Char.ofNat c.toNat := congrArg Char.ofNat (by omega)
      _ = c := Char.ofNat_toNat c

theorem exists_pieces_of_spells {text s : List Char} (h : Spells text s) :
    ∃ pieces, Pieces text pieces ∧ characters? pieces = some s := by
  induction h with
  | nil => exact ⟨[], .nil, rfl⟩
  | char hquote hbackslash hspace _ ih =>
      obtain ⟨pieces, hpieces, hs⟩ := ih
      exact ⟨_, hpieces.char hquote hbackslash hspace, by rw [characters?, hs]; rfl⟩
  | escape hletter _ ih =>
      obtain ⟨pieces, hpieces, hs⟩ := ih
      exact ⟨_, hpieces.escape hletter, by rw [characters?, hs]; rfl⟩
  | codeUnit hunit _ ih =>
      obtain ⟨pieces, hpieces, hs⟩ := ih
      exact ⟨_, hpieces.codeUnit hunit, by rw [characters?_codeUnit, hs]; rfl⟩
  | surrogates hc hhigh hlow _ ih =>
      obtain ⟨pieces, hpieces, hs⟩ := ih
      obtain ⟨hhigh', hlow', hpair⟩ := ofPair_eq_iff.mpr ⟨hc, rfl, rfl⟩
      refine ⟨_, by simpa using (hpieces.codeUnit hlow).codeUnit hhigh, ?_⟩
      rw [characters?_surrogates hhigh' hlow', hpair, hs]
      rfl

theorem spells_of_pieces {text s : List Char} {pieces : List Piece} (h : Pieces text pieces)
    (hs : characters? pieces = some s) : Spells text s := by
  fun_induction characters? pieces generalizing text s with
  | case1 =>
      obtain rfl : [] = s := by simpa using hs
      cases h
      exact .nil
  | case2 c pieces ih =>
      obtain ⟨s, hchars, rfl⟩ := Option.map_eq_some_iff.mp hs
      cases h with
      | char hquote hbackslash hspace h => exact (ih h hchars).char hquote hbackslash hspace
      | escape hletter h => exact (ih h hchars).escape hletter
  | case3 high low pieces hhigh hlow ih =>
      obtain ⟨s, hchars, rfl⟩ := Option.map_eq_some_iff.mp hs
      obtain ⟨hc, hhigh', hlow'⟩ := ofPair_eq_iff.mp ⟨hhigh, hlow, rfl⟩
      cases h with
      | codeUnit hunit h =>
          cases h with
          | codeUnit hunit' h =>
              simpa using (ih h hchars).surrogates hc (hhigh' ▸ hunit) (hlow' ▸ hunit')
  | case4 | case5 | case7 => cases hs
  | case6 unit low pieces hhigh hlow ih =>
      obtain ⟨s, hchars, rfl⟩ := Option.map_eq_some_iff.mp hs
      cases h with
      | codeUnit hunit h =>
          have hvalid := isValidChar_of_not_surrogate hunit.lt hhigh hlow
          exact (ih h hchars).codeUnit ((toNat_ofNat hvalid).symm ▸ hunit)
  | case8 unit pieces _ hsurrogate ih =>
      obtain ⟨s, hchars, rfl⟩ := Option.map_eq_some_iff.mp hs
      obtain ⟨hhigh, hlow⟩ : ¬ isHighSurrogate unit ∧ ¬ isLowSurrogate unit := by
        simpa using hsurrogate
      cases h with
      | codeUnit hunit h =>
          have hvalid := isValidChar_of_not_surrogate hunit.lt hhigh hlow
          exact (ih h hchars).codeUnit ((toNat_ofNat hvalid).symm ▸ hunit)

/-- A text that spells characters is read as these. -/
theorem exists_scan_of_spells {spelled s : List Char} (h : Spells spelled s)
    (rest : List Char) :
    ∃ pieces, scan (spelled ++ '"' :: rest) = some (pieces, rest) ∧
      characters? pieces = some s := by
  obtain ⟨pieces, hpieces, hs⟩ := exists_pieces_of_spells h
  exact ⟨pieces, scan_of_pieces hpieces, hs⟩

/-- Nothing but a text that spells characters is read as these. -/
theorem exists_spells_of_scan {text rest s : List Char} {pieces : List Piece}
    (h : scan text = some (pieces, rest)) (hs : characters? pieces = some s) :
    ∃ spelled, Spells spelled s ∧ text = spelled ++ '"' :: rest := by
  obtain ⟨spelled, hpieces, htext⟩ := pieces_of_scan h
  exact ⟨spelled, spells_of_pieces hpieces hs, htext⟩

/-! ## What is written -/

theorem isCodeUnit_controlDigits {n : Nat} (h : n < 0x20) : IsCodeUnit (controlDigits n) n := by
  have hdigit {k : Nat} (hk : k < 16) : IsHexDigit k.digitChar k := ⟨hk, .inl rfl⟩
  rw [IsCodeUnit, show n / 4096 = 0 by omega, show n / 256 % 16 = 0 by omega,
    show n / 16 % 16 = n / 16 by omega]
  exact .cons (hdigit (by decide)) (.cons (hdigit (by decide))
    (.cons (hdigit (by omega)) (.cons (hdigit (by omega)) .nil)))

theorem spells_escapeChar (c : Char) {text s : List Char} (h : Spells text s) :
    Spells (escapeChar c ++ text) (c :: s) := by
  fun_cases escapeChar c with
  | case8 c _ _ _ _ _ _ _ hcontrol => exact h.codeUnit (isCodeUnit_controlDigits hcontrol)
  | case9 c hquote hbackslash _ _ _ _ _ hcontrol =>
      exact h.char hquote hbackslash (Nat.not_lt.mp hcontrol)
  | _ => exact h.escape (by simp [escapes])

theorem spells_flatMap_escapeChar (s : List Char) : Spells (s.flatMap escapeChar) s := by
  induction s with
  | nil => exact .nil
  | cons c s ih => exact spells_escapeChar c ih

end VectorQuery.Json.StringText
