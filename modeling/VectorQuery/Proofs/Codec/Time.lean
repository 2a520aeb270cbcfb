import VectorQuery.Proofs.Codec.Value

/-!
# Times in text

The time of a vector goes through text as the digits of a binary64 number of milliseconds.
Whole milliseconds are exact in neither direction: what is read has its nanoseconds rounded to
53 digits, what is written has gone through a number of seconds, and its digits need not be
read as the number that they were written for.  The main statement says by how much, and for
which milliseconds nothing is lost.
-/

namespace VectorQuery

open Number Nanoseconds

namespace Instant

/-! ## Instants at whole milliseconds -/

variable {t : ℤ} {n : Nanoseconds}

theorem count_ofUnix (h : |n.count| < 2 ^ 75) :
    (ofUnix n).sinceReference.count = unixEpoch + n.count := by
  rw [abs_lt] at h
  refine count_clamp_of_abs_le ?_
  rw [abs_le]
  unfold unixEpoch perSecond perCentury
  omega

theorem abs_mul_perMillisecond_le (h : |t| ≤ 2 ^ 53) :
    |t * perMillisecond| ≤ 2 ^ 53 * 10 ^ 6 := by
  rw [abs_le] at h ⊢
  unfold perMillisecond
  omega

theorem count_clamp_perMillisecond (h : |t| ≤ 2 ^ 53) :
    (clamp (t * perMillisecond)).count = t * perMillisecond :=
  count_clamp_of_abs_le ((abs_mul_perMillisecond_le h).trans (by norm_num [perCentury]))

theorem count_ofUnixMilliseconds (h : |t| ≤ 2 ^ 53) :
    (ofUnixMilliseconds t).sinceReference.count = unixEpoch + t * perMillisecond := by
  have hcount := count_clamp_perMillisecond h
  have hbound := (abs_mul_perMillisecond_le h).trans_lt (by norm_num : _ < (2 : ℤ) ^ 75)
  rw [ofUnixMilliseconds, count_ofUnix (by rwa [hcount]), hcount]

theorem count_sinceUnix_ofUnixMilliseconds (h : |t| ≤ 2 ^ 53) :
    (ofUnixMilliseconds t).sinceUnix.count = t * perMillisecond := by
  rw [sinceUnix, count_ofUnixMilliseconds h, add_sub_cancel_left, count_clamp_perMillisecond h]

theorem ofUnix_eq_ofUnixMilliseconds_iff (hn : |n.count| < 2 ^ 75) (h : |t| ≤ 2 ^ 53) :
    ofUnix n = ofUnixMilliseconds t ↔ n.count = t * perMillisecond := by
  rw [Instant.ext_iff, Nanoseconds.ext_iff, count_ofUnix hn, count_ofUnixMilliseconds h,
    add_right_inj]

/-- Milliseconds that the roundings spare: whole seconds, and those between
`2 ^ k` and `1000 * 2 ^ (k - 9)`, where the last digit of the seconds is worth
less than that of the milliseconds. -/
def Spared (t : ℤ) : Prop :=
  1000 ∣ t ∨ ∃ k : ℕ, 17 ≤ k ∧ 2 ^ k < |t| ∧ |t| * 2 ^ 9 < 1000 * 2 ^ k

theorem roundedMilliseconds_eq (h : |t| ≤ 2 ^ 53) (hspared : Spared t) :
    roundedMilliseconds (t * perMillisecond) = t := by
  rcases hspared with hdvd | ⟨k, hk, hlo, hhi⟩
  · refine roundedMilliseconds_of_dvd ?_ hdvd
    rw [abs_le] at h
    rw [abs_lt]
    omega
  · exact roundedMilliseconds_of_lt h hk hlo hhi

/-- The number that is written for whole milliseconds. -/
theorem value?_toUnixMilliseconds (h : |t| ≤ 2 ^ 53) :
    value? (ofUnixMilliseconds t).toUnixMilliseconds =
      some (roundedMilliseconds (t * perMillisecond)) := by
  rw [toUnixMilliseconds, value?_toMilliseconds, count_sinceUnix_ofUnixMilliseconds h]

/-- The instant that a number of milliseconds is read as. -/
theorem ofUnixMillisecondsFloat_eq {q : ℚ} {x : Float} (h : |q| ≤ 2 ^ 54)
    (hx : value? x = some q) : ofUnixMillisecondsFloat x = ofUnix (clamp (readNanoseconds q)) := by
  have hcount := ofMilliseconds_eq h hx
  have hrange := (abs_readNanoseconds_lt h).le.trans
    (by norm_num [perCentury] : _ ≤ 32768 * perCentury)
  have heq : ofMilliseconds x = clamp (readNanoseconds q) :=
    Nanoseconds.ext (hcount.trans (count_clamp_of_abs_le hrange).symm)
  rw [ofUnixMillisecondsFloat, heq]

theorem ofUnix_clamp_eq_iff {q : ℚ} (hq : |q| ≤ 2 ^ 54) (h : |t| ≤ 2 ^ 53) :
    ofUnix (clamp (readNanoseconds q)) = ofUnixMilliseconds t ↔
      readNanoseconds q = t * perMillisecond := by
  have hbound := abs_readNanoseconds_lt hq
  have hcount : (clamp (readNanoseconds q)).count = readNanoseconds q :=
    count_clamp_of_abs_le (hbound.le.trans (by norm_num [perCentury]))
  rw [ofUnix_eq_ofUnixMilliseconds_iff (by rwa [hcount]) h, hcount]

end Instant

namespace InstantVector

/-! ## Vectors with a time -/

/-- Texts of vectors with `timeJson` for the time are read with `time`. -/
def ReadsTime (timeJson : Json) (time : Instant) : Prop :=
  ∀ (j samplesJson : Json) (text : String), j.IsText text →
    j.record? ["time", "samples"] = some [timeJson, samplesJson] →
    ofJsonText? text = (samplesOfJson? samplesJson).map (⟨time, ·⟩)

/-- The text of a vector at `time` has the digits of the number `x` for it. -/
def WritesTime (time : Instant) (x : Float) : Prop :=
  ∀ samples style, toJsonText style ⟨time, samples⟩ =
    Json.render style
      (.object [("time", .number x), ("samples", .array (samples.map Sample.toJson))])

/-- Vectors at `time` whose text is read have that time again, unless a number of their samples
is not finite. -/
def KeepsTime (time : Instant) : Prop :=
  ∀ samples style, ofJsonText? (toJsonText style ⟨time, samples⟩) =
    if isFinite ⟨time, samples⟩ then some ⟨time, samples.map Sample.reread⟩ else none

theorem readsTime {timeJson : Json} {x : Float} (hx : timeJson.number? = some x) :
    ReadsTime timeJson (.ofUnixMillisecondsFloat x) := by
  intro j samplesJson text htext hj
  rw [ofJsonText?, htext.read?_eq]
  exact ofJson?_eq hj hx

theorem writesTime (time : Instant) : WritesTime time time.toUnixMilliseconds := by
  intro samples style
  rw [toJsonText, toJson, Json.ofFloat, if_pos time.isFinite_toUnixMilliseconds]

/-- The time is kept if it is the one that the digits of its number are read as. -/
theorem keepsTime_iff_eq (time : Instant) :
    KeepsTime time ↔ .ofUnixMillisecondsFloat (Number.reread time.toUnixMilliseconds) = time := by
  constructor
  · intro hkeeps
    have hempty := (ofJsonText?_toJsonText .compact ⟨time, []⟩).symm.trans (hkeeps [] .compact)
    exact congrArg InstantVector.time (Option.some.inj hempty)
  · intro heq samples style
    rw [ofJsonText?_toJsonText, reread, heq]

variable {t : ℤ}

theorem abs_roundedMilliseconds_le (h : |t| ≤ 2 ^ 53) :
    |roundedMilliseconds (t * perMillisecond)| ≤ 2 ^ 53 + 3 := by
  have herr := abs_roundedMilliseconds_sub_le h
  have htri := abs_sub_abs_le_abs_sub (roundedMilliseconds (t * perMillisecond)) t
  have ht : |(t : ℚ)| ≤ 2 ^ 53 := by exact_mod_cast h
  norm_num at herr ht ⊢
  linarith

/-- What is read of the digits of such a number is still within the range. -/
theorem abs_le_of_abs_sub_le {p q : ℚ} (hp : |p| ≤ 2 ^ 53 + 3)
    (h : |q - p| ≤ |p| * 2 ^ (-49 : ℤ) + 2 ^ (-1073 : ℤ)) : |q| ≤ 2 ^ 54 := by
  have htri := abs_sub_abs_le_abs_sub q p
  have htiny : (2 : ℚ) ^ (-1073 : ℤ) ≤ 1 := zpow_le_one_of_nonpos₀ (by norm_num) (by norm_num)
  generalize (2 : ℚ) ^ (-1073 : ℤ) = tiny at *
  norm_num at h hp ⊢
  linarith

theorem readNanoseconds_eq_iff (t : ℤ) :
    readNanoseconds t = t * perMillisecond ↔ Representable (t * perMillisecond : ℤ) := by
  rw [← nearest_eq_self_iff, ← readNanoseconds_intCast, Int.cast_inj]

/-- A number that is written for spared milliseconds is read as it is. -/
theorem reread_toUnixMilliseconds_eq (h : |t| ≤ 2 ^ 53) (hten : 10 * |t| ≤ 2 ^ 53)
    (hspared : Instant.Spared t) :
    Number.reread (Instant.ofUnixMilliseconds t).toUnixMilliseconds =
      (Instant.ofUnixMilliseconds t).toUnixMilliseconds := by
  have hvalue := Instant.value?_toUnixMilliseconds h
  rw [Instant.roundedMilliseconds_eq h hspared] at hvalue
  refine reread_eq_self hvalue (writtenExactly_of_whole (t := t.natAbs) hvalue ?_ ?_)
  · rw [Nat.cast_natAbs, Int.cast_abs]
  · rw [Int.abs_eq_natAbs] at hten
    omega

/-- Whatever is read as the number `t` is read with the nanoseconds of these milliseconds. -/
theorem readsTime_of_value? {timeJson : Json} {x : Float} (h : |t| ≤ 2 ^ 53)
    (hx : timeJson.number? = some x) (hvalue : value? x = some (t : ℚ)) :
    ReadsTime timeJson (.ofUnix (clamp (readNanoseconds t))) := by
  have hrange : |(t : ℚ)| ≤ 2 ^ 54 := by
    have ht : |(t : ℚ)| ≤ 2 ^ 53 := by exact_mod_cast h
    exact ht.trans (by norm_num)
  rw [← Instant.ofUnixMillisecondsFloat_eq hrange hvalue]
  exact readsTime hx

/-- Times of whole milliseconds `t`, all of which are within the range, are read
with their nanoseconds rounded to 53 digits, so exactly if no more are needed.  This is so
for the digits alone, and also with a zero behind the point while `t` leaves room for it.
They are written in the digits of the number that the four roundings lead to, which is off by
a few units of the last digit at most, and not at all if they are spared.  A time
that is written and read is kept if the nanoseconds of the number that these digits are read
as are its own; if it is spared and leaves room for a digit, so that this is `t`, that is if
it can be read exactly. -/
theorem time_text (h : |t| ≤ 2 ^ 53) :
    (Instant.ofUnixMilliseconds t).sinceUnix.count = t * perMillisecond ∧
    (Json.Token.ofWord? (Json.integerDigits t) = some (.integer t) ∧
      ReadsTime (.integer t) (.ofUnix (clamp (readNanoseconds t))) ∧
      (10 * |t| ≤ 2 ^ 53 → ∃ y,
        Json.Token.ofWord? (Json.integerDigits t ++ ['.', '0']) = some (.number y) ∧
        ReadsTime (.number y) (.ofUnix (clamp (readNanoseconds t)))) ∧
      (readNanoseconds t : ℚ) = nearest (t * perMillisecond : ℤ) ∧
      |readNanoseconds t - t * perMillisecond| * 2 ^ 53 ≤ |t * perMillisecond| ∧
      (Instant.ofUnix (clamp (readNanoseconds t)) = .ofUnixMilliseconds t ↔
        Representable (t * perMillisecond : ℤ))) ∧
    ∃ (x : Float) (q : ℚ),
      (WritesTime (.ofUnixMilliseconds t) x ∧
        value? x = some (roundedMilliseconds (t * perMillisecond)) ∧
        |roundedMilliseconds (t * perMillisecond) - t| ≤ (|(t : ℚ)| + 1000) * 2 ^ (-52 : ℤ) ∧
        (Instant.Spared t → roundedMilliseconds (t * perMillisecond) = t)) ∧
      (value? (Number.reread x) = some q ∧
        |q - roundedMilliseconds (t * perMillisecond)| ≤
          |roundedMilliseconds (t * perMillisecond)| * 2 ^ (-49 : ℤ) + 2 ^ (-1073 : ℤ) ∧
        (KeepsTime (.ofUnixMilliseconds t) ↔ readNanoseconds q = t * perMillisecond)) ∧
      (Instant.Spared t → 10 * |t| ≤ 2 ^ 53 → q = t ∧
        (KeepsTime (.ofUnixMilliseconds t) ↔ Representable (t * perMillisecond : ℤ))) := by
  have hint := abs_le.mp h
  have hdigits := Json.ofWord?_integerDigits (n := t) (by omega) (by omega)
  have hread := readNanoseconds_intCast t
  have hexact : Instant.ofUnix (clamp (readNanoseconds t)) = .ofUnixMilliseconds t ↔
      Representable (t * perMillisecond : ℤ) := by
    have ht : |(t : ℚ)| ≤ 2 ^ 53 := by exact_mod_cast h
    rw [Instant.ofUnix_clamp_eq_iff (ht.trans (by norm_num)) h, readNanoseconds_eq_iff]
  have hvalue := Instant.value?_toUnixMilliseconds h
  obtain ⟨q, hq, herr⟩ := exists_value?_reread hvalue
  have hrange := abs_le_of_abs_sub_le (abs_roundedMilliseconds_le h) herr
  have hkeeps : KeepsTime (.ofUnixMilliseconds t) ↔ readNanoseconds q = t * perMillisecond := by
    rw [keepsTime_iff_eq, Instant.ofUnixMillisecondsFloat_eq hrange hq,
      Instant.ofUnix_clamp_eq_iff hrange h]
  refine ⟨Instant.count_sinceUnix_ofUnixMilliseconds h,
    ⟨hdigits, readsTime_of_value? h rfl (value?_ofInt h), fun hten ↦ ?_, hread,
      abs_sub_mul_le_of_nearest_eq hread.symm, hexact⟩,
    _, q, ⟨writesTime _, hvalue, abs_roundedMilliseconds_sub_le h,
      Instant.roundedMilliseconds_eq h⟩, ⟨hq, herr, hkeeps⟩, fun hspared hten ↦ ?_⟩
  · obtain ⟨y, hy, hyvalue⟩ := Json.exists_ofWord?_integerDigits_append hten
    exact ⟨y, hy, readsTime_of_value? h rfl hyvalue⟩
  · rw [reread_toUnixMilliseconds_eq h hten hspared, hvalue,
      Instant.roundedMilliseconds_eq h hspared, Option.some.injEq] at hq
    rw [hkeeps, ← hq, readNanoseconds_eq_iff]
    exact ⟨rfl, Iff.rfl⟩

/-- The time of an instant before 1970, a whole number of milliseconds but not of
seconds, is read, written and kept. -/
theorem time_text_beforeEpoch :
    |(-1700000000004 : ℤ)| ≤ 2 ^ 53 ∧
      ReadsTime (.integer (-1700000000004)) (.ofUnixMilliseconds (-1700000000004)) ∧
      (∃ x, WritesTime (.ofUnixMilliseconds (-1700000000004)) x ∧
        value? x = some ((-1700000000004 : ℤ) : ℚ)) ∧
      KeepsTime (.ofUnixMilliseconds (-1700000000004)) := by
  have hrange : |(-1700000000004 : ℤ)| ≤ 2 ^ 53 := by norm_num
  have hten : 10 * |(-1700000000004 : ℤ)| ≤ 2 ^ 53 := by norm_num
  have hspared : Instant.Spared (-1700000000004) := .inr ⟨40, by norm_num⟩
  have hrepresentable : Representable ((-1700000000004 : ℤ) * perMillisecond : ℤ) :=
    ⟨-6640625000015625, 8, by norm_num, by norm_num, by norm_num [perMillisecond]⟩
  obtain ⟨-, ⟨-, hreads, -, -, -, hread⟩, x, q, ⟨hwrites, hvalue, -, hwritten⟩, -, hkept⟩ :=
    time_text hrange
  rw [hread.mpr hrepresentable] at hreads
  rw [hwritten hspared] at hvalue
  exact ⟨hrange, hreads, ⟨x, hwrites, hvalue⟩, (hkept hspared hten).2.mpr hrepresentable⟩

/-- A millisecond before 1970 is not written as -1, and is read again as another
time; a time that a clock can show today is read wrong as it is. -/
theorem time_text_rounded :
    toJsonText .compact ⟨.ofUnixMilliseconds (-1), []⟩ =
        "\x7b\"time\":-0.9999999999998899,\"samples\":[]\x7d" ∧
      ¬KeepsTime (.ofUnixMilliseconds (-1)) ∧
      ofJsonText? "\x7b\"time\":1700000000001,\"samples\":[]\x7d" =
        some ⟨.ofUnix (clamp 1700000000000999936), []⟩ ∧
      Instant.ofUnix (clamp 1700000000000999936) ≠ .ofUnixMilliseconds 1700000000001 := by
  have hread : Json.read? "\x7b\"time\":1700000000001,\"samples\":[]\x7d" =
      some (.object [("time", .integer 1700000000001), ("samples", .array [])]) := by
    cbv
  have htime : Instant.ofUnixMillisecondsFloat (Float.ofInt 1700000000001) =
      .ofUnix (clamp 1700000000000999936) := by decide +kernel
  refine ⟨by decide +kernel, ?_, ?_, by decide +kernel⟩
  · rw [keepsTime_iff_eq]
    decide +kernel
  · have hnumber : (Json.integer 1700000000001).number? = some (.ofInt 1700000000001) := rfl
    have hrecord : (Json.object
        [("time", .integer 1700000000001), ("samples", .array [])]).record? ["time", "samples"] =
        some [.integer 1700000000001, .array []] := rfl
    rw [ofJsonText?, hread, ← htime]
    exact ofJson?_eq hrecord hnumber

end InstantVector

end VectorQuery
