import Mathlib
import VectorQuery.Json.Writer
import VectorQuery.Proofs.Json.Text
import VectorQuery.Proofs.Number.Reread

/-!
# What is written

What is written for a value in either style is a text again, of a value of the same form:
only that the digits of a number need not be read as this number (`Number.reread`).
-/

namespace VectorQuery.Json

open NumberText (digitsOf_toDigits)
open Number (Literal Layout)

/-! ## Words -/

section Integers

variable {n : Nat} (negative : Bool)

/-- The digits of a whole number as a literal. -/
def integerLiteral (negative : Bool) (n : Nat) : Literal :=
  ⟨negative, Nat.toDigits 10 n, none, none⟩

theorem isProper_integerLiteral : NumberText.IsProper (integerLiteral negative n) := by
  have hdigits := digitsOf_toDigits n
  exact ⟨hdigits.isDigit, hdigits.ne_nil, hdigits.zero, nofun⟩

theorem unsignedText_integerLiteral :
    NumberText.unsignedText (integerLiteral negative n) = Nat.toDigits 10 n := by
  simp [NumberText.unsignedText, integerLiteral, NumberText.fractionText, NumberText.exponentText]

theorem literal?_integerLiteral :
    NumberText.unsigned? negative (Nat.toDigits 10 n) = some (integerLiteral negative n) := by
  have hread := NumberText.unsigned?_unsignedText (isProper_integerLiteral (n := n) negative)
  rwa [unsignedText_integerLiteral] at hread

theorem integer?_integerLiteral (h : n < UInt64.size) :
    (integerLiteral negative n).integer? =
      if !negative then some (n : Int)
      else if 0 < n ∧ n ≤ Nat.pow 2 63 then some (-n) else none := by
  have hvalue : Nat.ofDigitChars 10 (Nat.toDigits 10 n) 0 = n := Nat.ofDigitChars_ten_toDigits
  simp only [Literal.integer?, integerLiteral, Number.takeDigits_eq (hvalue.trans_lt h), hvalue]
  rfl

end Integers

/-- The digits of a whole number of 64 bits are read as this number. -/
theorem ofWord?_integerDigits {n : Int} (hmin : -2 ^ 63 ≤ n) (hmax : n < 2 ^ 64) :
    Token.ofWord? (integerDigits n) = some (.integer n) := by
  have hfits : n.natAbs < UInt64.size := by
    unfold UInt64.size
    omega
  have htoken {negative : Bool} {text : List Char}
      (hliteral : NumberText.literal? text = some (integerLiteral negative n.natAbs))
      (hinteger : (integerLiteral negative n.natAbs).integer? = some n) :
      Token.ofWord? text = some (.integer n) := by
    rw [NumberText.ofWord?_of_literal? hliteral, NumberText.token, hinteger]
  rw [integerDigits]
  split
  case isTrue hneg =>
    refine htoken (literal?_integerLiteral true) ?_
    rw [integer?_integerLiteral true hfits, if_neg (by decide),
      if_pos ⟨by omega, by rw [Nat.pow_eq]; omega⟩]
    exact congrArg some (by omega)
  case isFalse hnonneg =>
    have hliteral :=
      NumberText.literal?_unsignedText (isProper_integerLiteral (n := n.natAbs) false)
    rw [unsignedText_integerLiteral, literal?_integerLiteral] at hliteral
    refine htoken hliteral ?_
    rw [integer?_integerLiteral false hfits, if_pos (by decide)]
    exact congrArg some (by omega)

theorem isWordChar_of_mem_integerDigits {n : Int} : ∀ c ∈ integerDigits n, Token.isWordChar c := by
  have hdigits : ∀ c ∈ Nat.toDigits 10 n.natAbs, Token.isWordChar c := fun c hc ↦
    NumberText.isWordChar_of_isDigit ((digitsOf_toDigits n.natAbs).isDigit c hc)
  rw [integerDigits]
  split
  · exact List.forall_mem_cons.mpr ⟨rfl, hdigits⟩
  · exact hdigits

/-- With a zero behind the point they are read as a number, which has the same value while it
leaves room for one more digit. -/
theorem exists_ofWord?_integerDigits_append {n : Int} (h : 10 * |n| ≤ 2 ^ 53) :
    ∃ x, Token.ofWord? (integerDigits n ++ ['.', '0']) = some (.number x) ∧
      Number.value? x = some (n : ℚ) := by
  rw [Int.abs_eq_natAbs] at h
  have hten : n.natAbs * 10 ≤ 2 ^ 53 := by omega
  have hliteral := NumberText.isLiteralOf_positional_of_nonneg (n := 0)
    (digitsOf_toDigits n.natAbs) (fun _ ↦ rfl) (hten.trans_lt (by decide))
  have htext : Number.positional (Nat.toDigits 10 n.natAbs) (0 : ℕ) =
      Nat.toDigits 10 n.natAbs ++ ['.', '0'] := by
    simp [Number.positional]
  rw [htext, zero_add, pow_one] at hliteral
  obtain ⟨l, hread, hinteger, hnegative, hdecimal⟩ :=
    NumberText.exists_literal?_signed hliteral (decide (n < 0))
  have hword : (if decide (n < 0) then '-' :: (Nat.toDigits 10 n.natAbs ++ ['.', '0'])
      else Nat.toDigits 10 n.natAbs ++ ['.', '0']) = integerDigits n ++ ['.', '0'] := by
    rw [integerDigits]
    by_cases hneg : n < 0 <;> simp [hneg]
  rw [hword] at hread
  obtain ⟨y, hy, hvalue⟩ := Decimal.exists_read?_mul_ten hten
  have hfloat : l.float? = some (if decide (n < 0) then -y else y) := by
    rw [Literal.float?, hdecimal, hnegative]
    exact congrArg (Option.map _) hy
  refine ⟨if decide (n < 0) then -y else y, ?_, ?_⟩
  · simp only [NumberText.ofWord?_of_literal? hread, NumberText.token, hinteger, hfloat]
  · split
    case isTrue hneg =>
      rw [decide_eq_true_iff] at hneg
      rw [Number.value?_neg hvalue, Nat.cast_natAbs, abs_of_neg hneg, Int.cast_neg, neg_neg]
    case isFalse hnonneg =>
      rw [decide_eq_true_iff, not_lt] at hnonneg
      rw [hvalue, Nat.cast_natAbs, abs_of_nonneg hnonneg]

/-- No number or literal name goes on into a text. -/
def Ends (text : List Char) : Prop := ∀ c ∈ text.head?, ¬ Token.isWordChar c

theorem ends_nil : Ends [] := nofun

theorem ends_cons {c : Char} {text : List Char} (h : ¬ Token.isWordChar c) : Ends (c :: text) := by
  rintro d hd
  obtain rfl := Option.some.inj hd
  exact h

theorem written_word {word text : List Char} {token : Token} {ts : List Token}
    (hword : Token.ofWord? word = some token) (hchars : ∀ c ∈ word, Token.isWordChar c)
    (hends : Ends text) (h : Token.Written ts text) :
    Token.Written (token :: ts) (word ++ text) := by
  cases word with
  | nil => cases hword
  | cons c word => exact .word hword hchars hends h

theorem written_null {text : List Char} {ts : List Token} (hends : Ends text)
    (h : Token.Written ts text) : Token.Written (.null :: ts) (['n', 'u', 'l', 'l'] ++ text) :=
  written_word rfl (List.all_eq_true.mp rfl) hends h

theorem written_true {text : List Char} {ts : List Token} (hends : Ends text)
    (h : Token.Written ts text) :
    Token.Written (.bool true :: ts) (['t', 'r', 'u', 'e'] ++ text) :=
  written_word rfl (List.all_eq_true.mp rfl) hends h

theorem written_false {text : List Char} {ts : List Token} (hends : Ends text)
    (h : Token.Written ts text) :
    Token.Written (.bool false :: ts) (['f', 'a', 'l', 's', 'e'] ++ text) :=
  written_word rfl (List.all_eq_true.mp rfl) hends h

/-- The digits of a finite number are read as a number. -/
theorem ofWord?_number {x : Float} (hx : x.isFinite) :
    Token.ofWord? (Layout.json.number x) = some (.number (Number.reread x)) ∧
      ∀ c ∈ Layout.json.number x, Token.isWordChar c := by
  obtain ⟨_, hvalue⟩ := Number.exists_value?_of_isFinite hx
  obtain ⟨l, hliteral, hinteger, -, -, hfloat⟩ := Number.exists_literal?_reread hvalue
  refine ⟨?_, NumberText.isWordChar_of_mem_number (Number.isLiteralOf_shortest hvalue)⟩
  simp only [NumberText.ofWord?_of_literal? hliteral, NumberText.token, hinteger, hfloat]

/-! ## Values -/

mutual

/-- Whether a value is written in such a way that it can be read: its numbers are finite, and
its integers have 64 bits. -/
def isWritable : Json → Bool
  | .integer n => -2 ^ 63 ≤ n && n < 2 ^ 64
  | .number x => x.isFinite
  | .array items => areWritable items
  | .object fields => fieldsAreWritable fields
  | .unreadable => false
  | _ => true

/-- Whether all of some values are written in such a way. -/
def areWritable : List Json → Bool
  | [] => true
  | item :: items => item.isWritable && areWritable items

/-- Whether the values of some fields are written in such a way. -/
def fieldsAreWritable : List (String × Json) → Bool
  | [] => true
  | (_, value) :: fields => value.isWritable && fieldsAreWritable fields

end

mutual

/-- The value that the text of a value is read as. -/
def reread : Json → Json
  | .number x => .number (Number.reread x)
  | .array items => .array (rereadItems items)
  | .object fields => .object (rereadFields fields)
  | j => j

/-- The values that the texts of some values are read as. -/
def rereadItems : List Json → List Json
  | [] => []
  | item :: items => item.reread :: rereadItems items

/-- The fields with the values that the texts of theirs are read as. -/
def rereadFields : List (String × Json) → List (String × Json)
  | [] => []
  | (name, value) :: fields => (name, value.reread) :: rereadFields fields

end

theorem isWritable_array {items : List Json} :
    (array items).isWritable ↔ ∀ item ∈ items, item.isWritable := by
  rw [isWritable]
  induction items with
  | nil => simp [areWritable]
  | cons item items ih => simp [areWritable, ih]

theorem isWritable_object {fields : List (String × Json)} :
    (object fields).isWritable ↔ ∀ field ∈ fields, field.2.isWritable := by
  rw [isWritable]
  induction fields with
  | nil => simp [fieldsAreWritable]
  | cons field fields ih => simp [fieldsAreWritable, ih]

theorem rereadItems_eq_map (items : List Json) : rereadItems items = items.map reread := by
  induction items with
  | nil => rfl
  | cons item items ih => rw [rereadItems, ih, List.map_cons]

theorem rereadFields_eq_map (fields : List (String × Json)) :
    rereadFields fields = fields.map fun field ↦ (field.1, field.2.reread) := by
  induction fields with
  | nil => rfl
  | cons field fields ih => rw [rereadFields, ih, List.map_cons]

mutual

theorem isReadable_reread (j : Json) (hj : j.isWritable) : j.reread.isReadable := by
  cases j with
  | null | bool | integer | number | string => rfl
  | unreadable => cases hj
  | array items => exact areReadable_rereadItems items hj
  | object fields => exact fieldsAreReadable_rereadFields fields hj

theorem areReadable_rereadItems (items : List Json) (hitems : areWritable items) :
    areReadable (rereadItems items) := by
  cases items with
  | nil => rfl
  | cons item items =>
      rw [areWritable, Bool.and_eq_true] at hitems
      rw [rereadItems, areReadable, isReadable_reread item hitems.1,
        areReadable_rereadItems items hitems.2]
      rfl

theorem fieldsAreReadable_rereadFields (fields : List (String × Json))
    (hfields : fieldsAreWritable fields) : fieldsAreReadable (rereadFields fields) := by
  cases fields with
  | nil => rfl
  | cons field fields =>
      rw [fieldsAreWritable, Bool.and_eq_true] at hfields
      rw [rereadFields, fieldsAreReadable, isReadable_reread field.2 hfields.1,
        fieldsAreReadable_rereadFields fields hfields.2]
      rfl

end

mutual

theorem depth_reread (j : Json) : j.reread.depth = j.depth := by
  cases j with
  | null | bool | integer | number | string | unreadable => rfl
  | array items => rw [reread, depth, depth, itemsDepth_rereadItems]
  | object fields => rw [reread, depth, depth, fieldsDepth_rereadFields]

theorem itemsDepth_rereadItems (items : List Json) :
    itemsDepth (rereadItems items) = itemsDepth items := by
  cases items with
  | nil => rfl
  | cons item items =>
      rw [rereadItems, itemsDepth, itemsDepth, depth_reread item, itemsDepth_rereadItems items]

theorem fieldsDepth_rereadFields (fields : List (String × Json)) :
    fieldsDepth (rereadFields fields) = fieldsDepth fields := by
  cases fields with
  | nil => rfl
  | cons field fields =>
      rw [rereadFields, fieldsDepth, fieldsDepth, depth_reread field.2,
        fieldsDepth_rereadFields fields]

end

/-! ## Writing

By induction on the value.  A number or a literal name has to be followed by something that
does not go on with it, which is a comma, a bracket, a line break or the end of the text.
-/

section Writing

variable (style : Style)

theorem written_lineBreak {ts : List Token} {text : List Char} (depth : Nat)
    (h : Token.Written ts text) : Token.Written ts (style.lineBreak depth ++ text) := by
  refine h.blanks fun c hc ↦ ?_
  cases style with
  | compact => cases hc
  | pretty =>
      rcases List.mem_cons.mp hc with rfl | hc
      · rfl
      · rw [List.eq_of_mem_replicate hc]
        rfl

theorem written_colon {ts : List Token} {text : List Char} (h : Token.Written ts text) :
    Token.Written (.colon :: ts) (style.colon ++ text) := by
  cases style with
  | compact => exact .char rfl h
  | pretty => exact .char rfl (.blank rfl h)

theorem written_quote {ts : List Token} {text : List Char} (s : String)
    (h : Token.Written ts text) : Token.Written (.string s :: ts) (quote s ++ text) := by
  have hwritten := h.string (StringText.spells_flatMap_escapeChar s.toList)
  simpa [quote] using hwritten

/-- The name and the colon of a field, on a line of their own. -/
theorem written_name {ts : List Token} {text : List Char} (depth : Nat) (name : String)
    (h : Token.Written ts text) :
    Token.Written (.string name :: .colon :: ts)
      (style.lineBreak depth ++ (quote name ++ (style.colon ++ text))) :=
  written_lineBreak style depth (written_quote name (written_colon style h))

theorem ends_lineBreak_append (depth : Nat) {text : List Char} (h : Ends text) :
    Ends (style.lineBreak depth ++ text) := by
  cases style with
  | compact => exact h
  | pretty => exact ends_cons (by decide)

theorem ends_writeItems_append (depth : Nat) (items : List Json) {text : List Char}
    (h : Ends text) : Ends (writeItems style depth items ++ text) := by
  cases items with
  | nil => exact h
  | cons item items => exact ends_cons (by decide)

theorem ends_writeFields_append (depth : Nat) (fields : List (String × Json)) {text : List Char}
    (h : Ends text) : Ends (writeFields style depth fields ++ text) := by
  cases fields with
  | nil => exact h
  | cons field fields => exact ends_cons (by decide)

mutual

theorem written_write (j : Json) (depth : Nat) (hj : j.isWritable) {ts : List Token}
    {text : List Char} (hends : Ends text) (h : Token.Written ts text) :
    Token.Written (j.reread.tokens ++ ts) (write style depth j ++ text) := by
  cases j with
  | null => exact written_null hends h
  | bool b =>
      cases b with
      | false => exact written_false hends h
      | true => exact written_true hends h
  | integer n =>
      rw [isWritable, Bool.and_eq_true, decide_eq_true_iff, decide_eq_true_iff] at hj
      exact written_word (ofWord?_integerDigits hj.1 hj.2) isWordChar_of_mem_integerDigits hends h
  | number x =>
      obtain ⟨hword, hchars⟩ := ofWord?_number hj
      exact written_word hword hchars hends h
  | string s => exact written_quote s h
  | unreadable => cases hj
  | array items =>
      have hclose : Token.Written (.closeArray :: ts) (']' :: text) := .char rfl h
      have hend : Ends (style.lineBreak depth ++ ']' :: text) :=
        ends_lineBreak_append style depth (ends_cons (by decide))
      cases items with
      | nil => exact .char rfl hclose
      | cons item items =>
          rw [isWritable, areWritable, Bool.and_eq_true] at hj
          have hitems := written_writeItems items (depth + 1) hj.2 hend
            (written_lineBreak style depth hclose)
          have hitem := written_write item (depth + 1) hj.1
            (ends_writeItems_append style (depth + 1) items hend) hitems
          have hopen : Token.Written (.openArray :: _) ('[' :: _) :=
            .char rfl (written_lineBreak style (depth + 1) hitem)
          simpa [write, reread, rereadItems, tokens, itemTokens, intercalate_cons] using hopen
  | object fields =>
      have hclose : Token.Written (.closeObject :: ts) ('}' :: text) := .char rfl h
      have hend : Ends (style.lineBreak depth ++ '}' :: text) :=
        ends_lineBreak_append style depth (ends_cons (by decide))
      cases fields with
      | nil => exact .char rfl hclose
      | cons field fields =>
          obtain ⟨name, value⟩ := field
          rw [isWritable, fieldsAreWritable, Bool.and_eq_true] at hj
          have hfields := written_writeFields fields (depth + 1) hj.2 hend
            (written_lineBreak style depth hclose)
          have hvalue := written_write value (depth + 1) hj.1
            (ends_writeFields_append style (depth + 1) fields hend) hfields
          have hopen : Token.Written (.openObject :: _) ('{' :: _) :=
            .char rfl (written_name style (depth + 1) name hvalue)
          simpa [write, reread, rereadFields, tokens, fieldTokens, intercalate_cons] using hopen

theorem written_writeItems (items : List Json) (depth : Nat) (hitems : areWritable items)
    {ts : List Token} {text : List Char} (hends : Ends text) (h : Token.Written ts text) :
    Token.Written ((itemTokens (rereadItems items)).flatMap (.comma :: ·) ++ ts)
      (writeItems style depth items ++ text) := by
  cases items with
  | nil => exact h
  | cons item items =>
      rw [areWritable, Bool.and_eq_true] at hitems
      have hrest := written_writeItems items depth hitems.2 hends h
      have hitem := written_write item depth hitems.1
        (ends_writeItems_append style depth items hends) hrest
      have hcomma : Token.Written (.comma :: _) (',' :: _) :=
        .char rfl (written_lineBreak style depth hitem)
      simpa [writeItems, rereadItems, itemTokens] using hcomma

theorem written_writeFields (fields : List (String × Json)) (depth : Nat)
    (hfields : fieldsAreWritable fields) {ts : List Token} {text : List Char} (hends : Ends text)
    (h : Token.Written ts text) :
    Token.Written ((fieldTokens (rereadFields fields)).flatMap (.comma :: ·) ++ ts)
      (writeFields style depth fields ++ text) := by
  cases fields with
  | nil => exact h
  | cons field fields =>
      obtain ⟨name, value⟩ := field
      rw [fieldsAreWritable, Bool.and_eq_true] at hfields
      have hrest := written_writeFields fields depth hfields.2 hends h
      have hvalue := written_write value depth hfields.1
        (ends_writeFields_append style depth fields hends) hrest
      have hcomma : Token.Written (.comma :: _) (',' :: _) :=
        .char rfl (written_name style depth name hvalue)
      simpa [writeFields, rereadFields, fieldTokens] using hcomma

end

/-- What is written for a value is a text again. -/
theorem isText_render {j : Json} (hj : j.isWritable) (hdepth : j.depth ≤ ReadState.maxDepth) :
    j.reread.IsText (j.render style) := by
  have hwritten := written_write style j 0 hj ends_nil .nil
  refine ⟨isReadable_reread j hj, by rwa [depth_reread], ?_⟩
  rw [List.append_nil, List.append_nil] at hwritten
  rwa [render, String.toList_ofList]

end Writing

end VectorQuery.Json
