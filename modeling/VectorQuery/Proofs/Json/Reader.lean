import VectorQuery.Json.Reader
import VectorQuery.Proofs.Json.Record

/-!
# The tokens of values

A value that can be read throughout is read of its tokens only: what has been read and
what it is inside of determine the tokens that have come so far, and each further token is
one more of them.
-/

namespace VectorQuery.Json

/-! ## Values -/

mutual

/-- The tokens of a value. -/
def tokens : Json → List Token
  | .null => [.null]
  | .bool b => [.bool b]
  | .integer n => [.integer n]
  | .number x => [.number x]
  | .string s => [.string s]
  | .array items => .openArray :: [.comma].intercalate (itemTokens items) ++ [.closeArray]
  | .object fields => .openObject :: [.comma].intercalate (fieldTokens fields) ++ [.closeObject]
  | .unreadable => []

/-- The tokens of each item. -/
def itemTokens : List Json → List (List Token)
  | [] => []
  | item :: items => item.tokens :: itemTokens items

/-- The tokens of each field. -/
def fieldTokens : List (String × Json) → List (List Token)
  | [] => []
  | (name, value) :: fields => (.string name :: .colon :: value.tokens) :: fieldTokens fields

end

theorem itemTokens_append (items items' : List Json) :
    itemTokens (items ++ items') = itemTokens items ++ itemTokens items' := by
  induction items with
  | nil => rfl
  | cons item items ih => rw [List.cons_append, itemTokens, itemTokens, ih, List.cons_append]

theorem fieldTokens_append (fields fields' : List (String × Json)) :
    fieldTokens (fields ++ fields') = fieldTokens fields ++ fieldTokens fields' := by
  induction fields with
  | nil => rfl
  | cons field fields ih => rw [List.cons_append, fieldTokens, fieldTokens, ih, List.cons_append]

/-- What follows on the first of some parts. -/
theorem intercalate_cons (part : List Token) (parts : List (List Token)) :
    [Token.comma].intercalate (part :: parts) = part ++ parts.flatMap (.comma :: ·) := by
  induction parts generalizing part with
  | nil => simp
  | cons part' parts ih => rw [List.intercalate_cons_cons, ih, List.flatMap_cons]; simp

/-- What stands before the last of some parts. -/
theorem intercalate_concat (parts : List (List Token)) (last : List Token) :
    [Token.comma].intercalate (parts ++ [last]) = parts.flatMap (· ++ [.comma]) ++ last := by
  induction parts with
  | nil => simp
  | cons part parts ih =>
      rw [List.cons_append, List.intercalate_cons_of_ne_nil (by simp), ih, List.flatMap_cons]
      simp

/-- The tokens of an array with items in reverse order, up to the place of its next one. -/
def openedArray (items : List Json) : List Token :=
  .openArray :: (itemTokens items.reverse).flatMap (· ++ [.comma])

/-- The tokens of an object with fields in reverse order, up to the place of its next one. -/
def openedObject (fields : List (String × Json)) : List Token :=
  .openObject :: (fieldTokens fields.reverse).flatMap (· ++ [.comma])

theorem openedArray_cons (item : Json) (items : List Json) :
    openedArray (item :: items) = openedArray items ++ item.tokens ++ [.comma] := by
  rw [openedArray, List.reverse_cons, itemTokens_append, List.flatMap_append]
  simp [openedArray, itemTokens]

theorem openedObject_cons (name : String) (value : Json) (fields : List (String × Json)) :
    openedObject ((name, value) :: fields) =
      openedObject fields ++ [.string name, .colon] ++ value.tokens ++ [.comma] := by
  rw [openedObject, List.reverse_cons, fieldTokens_append, List.flatMap_append]
  simp [openedObject, fieldTokens]

theorem tokens_array_reverse_cons (item : Json) (items : List Json) :
    (array (item :: items).reverse).tokens =
      openedArray items ++ item.tokens ++ [.closeArray] := by
  rw [tokens, List.reverse_cons, itemTokens_append, itemTokens, itemTokens, intercalate_concat]
  simp [openedArray]

theorem tokens_object_reverse_cons (name : String) (value : Json)
    (fields : List (String × Json)) :
    (object ((name, value) :: fields).reverse).tokens =
      openedObject fields ++ [.string name, .colon] ++ value.tokens ++ [.closeObject] := by
  rw [tokens, List.reverse_cons, fieldTokens_append, fieldTokens, fieldTokens,
    intercalate_concat]
  simp [openedObject]

namespace ReadState

/-! ## What has been read -/

/-- The tokens of the frames of a stack up to the place of the next value, if these can be
read. -/
inductive Inside : List Token → List Frame → Prop
  | outermost : Inside [] []
  | array {ts : List Token} {stack : List Frame} {items : List Json} (h : Inside ts stack)
      (hitems : ∀ item ∈ items, item.isReadable) :
      Inside (ts ++ openedArray items) (.array items :: stack)
  | object {ts : List Token} {stack : List Frame} {fields : List (String × Json)}
      {name : String} (h : Inside ts stack) (hfields : ∀ field ∈ fields, field.2.isReadable) :
      Inside (ts ++ openedObject fields ++ [.string name, .colon])
        (.object (some fields) (some name) :: stack)

/-- The tokens that have been read in a state, if all that they are of can be read. -/
inductive HasRead : List Token → ReadState → Prop
  | value {ts : List Token} {stack : List Frame} {mayClose : Bool} (h : Inside ts stack) :
      HasRead ts (.value stack mayClose)
  | name {ts : List Token} {stack : List Frame} {fields : List (String × Json)}
      {mayClose : Bool} (h : Inside ts stack)
      (hfields : ∀ field ∈ fields, field.2.isReadable) :
      HasRead (ts ++ openedObject fields) (.name (some fields) stack mayClose)
  | colon {ts : List Token} {stack : List Frame} {fields : List (String × Json)}
      {name : String} (h : Inside ts stack) (hfields : ∀ field ∈ fields, field.2.isReadable) :
      HasRead (ts ++ openedObject fields ++ [.string name])
        (.colon (some fields) (some name) stack)
  | complete {ts : List Token} {stack : List Frame} {value : Json} (h : Inside ts stack)
      (hvalue : value.isReadable) : HasRead (ts ++ value.tokens) (.complete value stack)

/-- An object that may still be closed at once is empty. -/
def IsOpened : ReadState → Prop
  | .name fields _ true => fields = some []
  | _ => True

theorem nested_eq {stack : List Frame} {value : Json} (h : (nested stack value).isReadable) :
    nested stack value = value := by
  unfold nested at h ⊢
  split
  · rfl
  · rename_i hdepth
    rw [if_neg hdepth] at h
    cases h

/-! ## Steps

A step is followed backwards: that all of a value can be read is known only once it is
complete, and holds then of the parts that it had before.
-/

theorem HasRead.of_beginValue {stack : List Frame} {token : Token} {st : ReadState}
    {ts : List Token} (h : HasRead ts st) (hbegin : beginValue stack token = some st) :
    ∃ ts₀, Inside ts₀ stack ∧ ts = ts₀ ++ [token] := by
  cases token with
  | null | bool | integer | number | string =>
      obtain rfl := Option.some.inj hbegin
      cases h with
      | complete h hvalue => exact ⟨_, h, rfl⟩
  | unreadableNumber | unreadableString =>
      obtain rfl := Option.some.inj hbegin
      cases h with
      | complete h hvalue => cases hvalue
  | openArray =>
      obtain rfl := Option.some.inj hbegin
      cases h with
      | value h =>
          cases h with
          | array h hitems => exact ⟨_, h, rfl⟩
  | openObject =>
      obtain rfl := Option.some.inj hbegin
      cases h with
      | name h hfields => exact ⟨_, h, rfl⟩
  | closeArray | closeObject | comma | colon => cases hbegin

theorem HasRead.of_closeArray {stack : List Frame} {items : List Json} {ts : List Token}
    (h : HasRead ts (closeArray items stack)) :
    ∃ ts₀, Inside ts₀ stack ∧ (∀ item ∈ items, item.isReadable) ∧
      ts = ts₀ ++ (array items.reverse).tokens := by
  cases h with
  | complete h hvalue =>
      have hnested := nested_eq hvalue
      rw [hnested] at hvalue ⊢
      refine ⟨_, h, fun item hitem ↦ ?_, rfl⟩
      exact isReadable_array.mp hvalue item (List.mem_reverse.mpr hitem)

theorem HasRead.of_closeObject {stack : List Frame} {fields : Fields} {ts : List Token}
    (h : HasRead ts (closeObject fields stack)) :
    ∃ ts₀ fields₀, fields = some fields₀ ∧ Inside ts₀ stack ∧
      (∀ field ∈ fields₀, field.2.isReadable) ∧ ts = ts₀ ++ (object fields₀.reverse).tokens := by
  cases fields with
  | none =>
      cases h with
      | complete _ hvalue => cases hvalue
  | some fields =>
      cases h with
      | complete h hvalue =>
          have hnested := nested_eq hvalue
          rw [hnested] at hvalue ⊢
          refine ⟨_, fields, rfl, h, fun field hfield ↦ ?_, rfl⟩
          exact isReadable_object.mp hvalue field (List.mem_reverse.mpr hfield)

theorem addField_eq_some_iff {fields : Fields} {name : Option String} {value : Json}
    {fields' : List (String × Json)} :
    addField fields name value = some fields' ↔
      ∃ fields₀ name₀, fields = some fields₀ ∧ name = some name₀ ∧
        fields' = (name₀, value) :: fields₀ := by
  cases fields <;> cases name <;> simp [addField, eq_comm]

theorem HasRead.of_afterValue {j : Json} {stack : List Frame} {token : Token} {st : ReadState}
    {ts : List Token} (h : HasRead ts st) (hafter : afterValue j stack token = some st) :
    ∃ ts₀, Inside ts₀ stack ∧ j.isReadable ∧ ts = ts₀ ++ j.tokens ++ [token] := by
  fun_cases afterValue j stack token with
  | case1 items stack =>
      obtain rfl := Option.some.inj hafter
      cases h with
      | value h =>
          cases h with
          | array h hitems =>
              rw [List.forall_mem_cons] at hitems
              exact ⟨_, .array h hitems.2, hitems.1, by simp [openedArray_cons]⟩
  | case2 items stack =>
      obtain rfl := Option.some.inj hafter
      obtain ⟨ts₀, hstack, hitems, rfl⟩ := h.of_closeArray
      rw [List.forall_mem_cons] at hitems
      refine ⟨_, .array hstack hitems.2, hitems.1, ?_⟩
      rw [tokens_array_reverse_cons]
      simp only [List.append_assoc]
  | case3 fields name stack =>
      have hst := Option.some.inj hafter
      generalize hadd : addField fields name j = fields' at hst
      subst hst
      cases h with
      | name h hfields =>
          obtain ⟨fields, name, rfl, rfl, rfl⟩ := addField_eq_some_iff.mp hadd
          rw [List.forall_mem_cons] at hfields
          exact ⟨_, .object h hfields.2, hfields.1, by simp [openedObject_cons]⟩
  | case4 fields name stack =>
      obtain rfl := Option.some.inj hafter
      obtain ⟨ts₀, fields', hadd, hstack, hfields, rfl⟩ := h.of_closeObject
      obtain ⟨fields, name, rfl, rfl, rfl⟩ := addField_eq_some_iff.mp hadd
      rw [List.forall_mem_cons] at hfields
      refine ⟨_, .object hstack hfields.2, hfields.1, ?_⟩
      rw [tokens_object_reverse_cons]
      simp only [List.append_assoc]
  | case5 => simp [afterValue, *] at hafter

/-- What has been read after a step is what had been read before, and the token. -/
theorem HasRead.of_step {st st' : ReadState} {token : Token} {ts : List Token}
    (h : HasRead ts st') (hopened : st.IsOpened) (hstep : step st token = some st') :
    ∃ ts₀, HasRead ts₀ st ∧ ts = ts₀ ++ [token] := by
  fun_cases step st token with
  | case1 stack =>
      obtain rfl := Option.some.inj hstep
      obtain ⟨ts₀, hstack, hitems, rfl⟩ := h.of_closeArray
      exact ⟨_, .value (.array hstack hitems), by simp [openedArray, tokens, itemTokens]⟩
  | case2 token stack mayClose hclose =>
      rw [step] at hstep
      · obtain ⟨ts₀, hstack, rfl⟩ := h.of_beginValue hstep
        exact ⟨ts₀, .value hstack, rfl⟩
      · exact hclose
  | case3 fields stack =>
      obtain rfl := Option.some.inj hstep
      obtain rfl : fields = some [] := hopened
      obtain ⟨ts₀, fields, hfields, hstack, hreadable, rfl⟩ := h.of_closeObject
      obtain rfl := Option.some.inj hfields
      exact ⟨_, .name hstack hreadable, by simp [openedObject, tokens, fieldTokens]⟩
  | case4 fields stack mayClose name =>
      simp only [step, Option.some.injEq] at hstep
      subst hstep
      cases h with
      | colon hstack hfields => exact ⟨_, .name hstack hfields, rfl⟩
  | case5 =>
      simp only [step, Option.some.injEq] at hstep
      subst hstep
      cases h
  | case6 => simp [step, *] at hstep
  | case7 fields name stack =>
      obtain rfl := Option.some.inj hstep
      cases h with
      | value hstack =>
          cases hstack with
          | object hstack hfields => exact ⟨_, .colon hstack hfields, by simp⟩
  | case8 => simp [step, *] at hstep
  | case9 j stack =>
      obtain ⟨ts₀, hstack, hj, rfl⟩ := h.of_afterValue hstep
      exact ⟨_, .complete hstack hj, rfl⟩

theorem isOpened_of_beginValue {stack : List Frame} {token : Token} {st : ReadState}
    (h : beginValue stack token = some st) : st.IsOpened := by
  cases token <;> cases h <;> trivial

theorem isOpened_closeObject (fields : Fields) (stack : List Frame) :
    (closeObject fields stack).IsOpened := by
  cases fields <;> trivial

theorem isOpened_of_afterValue {j : Json} {stack : List Frame} {token : Token}
    {st : ReadState} (h : afterValue j stack token = some st) : st.IsOpened := by
  fun_cases afterValue j stack token with
  | case4 =>
      obtain rfl := Option.some.inj h
      exact isOpened_closeObject _ _
  | case5 => simp [afterValue, *] at h
  | _ =>
      obtain rfl := Option.some.inj h
      trivial

theorem isOpened_of_step {st st' : ReadState} {token : Token} (h : step st token = some st') :
    st'.IsOpened := by
  unfold step at h
  split at h
  case h_2 => exact isOpened_of_beginValue h
  case h_9 => exact isOpened_of_afterValue h
  case h_6 | h_8 => cases h
  all_goals
    obtain rfl := Option.some.inj h
    trivial

/-! ## Runs -/

theorem HasRead.of_foldlM {tokens : List Token} {st st' : ReadState} {ts : List Token}
    (h : HasRead ts st') (hopened : st.IsOpened)
    (hrun : tokens.foldlM step st = some st') :
    ∃ ts₀, HasRead ts₀ st ∧ ts = ts₀ ++ tokens := by
  induction tokens generalizing st with
  | nil =>
      obtain rfl := Option.some.inj hrun
      exact ⟨ts, h, (List.append_nil ts).symm⟩
  | cons token tokens ih =>
      rw [List.foldlM_cons, Option.bind_eq_bind, Option.bind_eq_some_iff] at hrun
      obtain ⟨st₁, hstep, hrun⟩ := hrun
      obtain ⟨ts₁, h₁, rfl⟩ := ih (isOpened_of_step hstep) hrun
      obtain ⟨ts₀, h₀, rfl⟩ := h₁.of_step hopened hstep
      exact ⟨ts₀, h₀, by simp⟩

end ReadState

/-- Only its own tokens are read as a value. -/
theorem eq_tokens_of_ofTokens? {ts : List Token} {j : Json} (h : ofTokens? ts = some j)
    (hj : j.isReadable) : ts = j.tokens := by
  rw [ofTokens?, Option.bind_eq_bind, Option.bind_eq_some_iff] at h
  obtain ⟨st, hrun, hresult⟩ := h
  obtain rfl : st = .complete j [] := by
    unfold ReadState.result? at hresult
    split at hresult
    · rw [Option.some.inj hresult]
    · cases hresult
  have hopened : ReadState.start.IsOpened := trivial
  obtain ⟨ts₀, hstart, hts⟩ :=
    (ReadState.HasRead.complete .outermost hj).of_foldlM hopened hrun
  cases hstart with
  | value h =>
      cases h
      exact hts.symm

end VectorQuery.Json
