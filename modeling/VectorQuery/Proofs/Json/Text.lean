import VectorQuery.Proofs.Json.Reader
import VectorQuery.Proofs.Json.Token

/-!
# Texts of values

A value that can be read throughout, and in which not too much is nested, is read of its
tokens.  So each text that is written in its tokens is read as this value.
-/

namespace VectorQuery.Json

/-! ## Depth -/

mutual

/-- How many arrays and objects there are inside of each other in a value. -/
def depth : Json → Nat
  | .array items => itemsDepth items + 1
  | .object fields => fieldsDepth fields + 1
  | _ => 0

/-- The depth of the deepest item. -/
def itemsDepth : List Json → Nat
  | [] => 0
  | item :: items => max item.depth (itemsDepth items)

/-- The depth of the deepest value of a field. -/
def fieldsDepth : List (String × Json) → Nat
  | [] => 0
  | (_, value) :: fields => max value.depth (fieldsDepth fields)

end

theorem itemsDepth_le_iff {items : List Json} {n : Nat} :
    itemsDepth items ≤ n ↔ ∀ item ∈ items, item.depth ≤ n := by
  induction items with
  | nil => simp [itemsDepth]
  | cons item items ih => simp [itemsDepth, ih]

theorem fieldsDepth_le_iff {fields : List (String × Json)} {n : Nat} :
    fieldsDepth fields ≤ n ↔ ∀ field ∈ fields, field.2.depth ≤ n := by
  induction fields with
  | nil => simp [fieldsDepth]
  | cons field fields ih => simp [fieldsDepth, ih]

theorem depth_array_le_iff {items : List Json} {n : Nat} :
    (array items).depth ≤ n + 1 ↔ ∀ item ∈ items, item.depth ≤ n := by
  rw [depth, Nat.add_le_add_iff_right, itemsDepth_le_iff]

theorem depth_object_le_iff {fields : List (String × Json)} {n : Nat} :
    (object fields).depth ≤ n + 1 ↔ ∀ field ∈ fields, field.2.depth ≤ n := by
  rw [depth, Nat.add_le_add_iff_right, fieldsDepth_le_iff]

namespace ReadState

/-! ## Reading tokens

By induction on the value.  Behind the first item of an array the further ones are read with
the items before them on the stack, and likewise with fields.
-/

theorem nested_of_lt {stack : List Frame} (h : stack.length < maxDepth) (value : Json) :
    nested stack value = value :=
  if_pos h

/-- A value that starts in a state starts so whether or not an array may be closed there. -/
theorem foldlM_step_value {token : Token} (h : token ≠ .closeArray) (tokens : List Token)
    (stack : List Frame) (mayClose : Bool) :
    (token :: tokens).foldlM step (.value stack mayClose) =
      (beginValue stack token).bind (tokens.foldlM step) := by
  rw [List.foldlM_cons, step]
  · rfl
  · intros
    exact h ‹_›

mutual

theorem foldlM_step_tokens (j : Json) (stack : List Frame) (mayClose : Bool) (hj : j.isReadable)
    (hdepth : stack.length + j.depth ≤ maxDepth) :
    j.tokens.foldlM step (.value stack mayClose) = some (.complete j stack) := by
  cases j with
  | null | bool | integer | number | string =>
      rw [tokens, foldlM_step_value (by nofun)]
      rfl
  | unreadable => cases hj
  | array items =>
      rw [depth] at hdepth
      have hlt : stack.length < maxDepth := by omega
      cases items with
      | nil =>
          rw [tokens, List.cons_append, foldlM_step_value (by nofun)]
          exact congrArg (fun value ↦ some (complete value stack)) (nested_of_lt hlt _)
      | cons item items =>
          rw [isReadable, areReadable, Bool.and_eq_true] at hj
          rw [itemsDepth] at hdepth
          have hfirst := foldlM_step_tokens item (.array [] :: stack) true hj.1
            (by rw [List.length_cons]; omega)
          have hrest := foldlM_step_itemTokens items stack item [] hj.2 (by omega)
          rw [tokens, itemTokens, intercalate_cons, List.cons_append, List.append_assoc,
            foldlM_step_value (by nofun)]
          change (item.tokens ++ _).foldlM step (.value (.array [] :: stack) true) = _
          rw [List.foldlM_append, hfirst]
          exact hrest
  | object fields =>
      rw [depth] at hdepth
      have hlt : stack.length < maxDepth := by omega
      cases fields with
      | nil =>
          rw [tokens, List.cons_append, foldlM_step_value (by nofun)]
          exact congrArg (fun value ↦ some (complete value stack)) (nested_of_lt hlt _)
      | cons field fields =>
          obtain ⟨name, value⟩ := field
          rw [isReadable, fieldsAreReadable, Bool.and_eq_true] at hj
          rw [fieldsDepth] at hdepth
          have hfirst := foldlM_step_tokens value (.object (some []) (some name) :: stack) false
            hj.1 (by rw [List.length_cons]; omega)
          have hrest := foldlM_step_fieldTokens fields stack name value [] hj.2 (by omega)
          rw [tokens, fieldTokens, intercalate_cons, List.cons_append, List.append_assoc,
            foldlM_step_value (by nofun)]
          change (value.tokens ++ _).foldlM step
            (.value (.object (some []) (some name) :: stack) false) = _
          rw [List.foldlM_append, hfirst]
          exact hrest

theorem foldlM_step_itemTokens (items : List Json) (stack : List Frame) (item : Json)
    (done : List Json) (hitems : areReadable items)
    (hdepth : stack.length + (itemsDepth items + 1) ≤ maxDepth) :
    ((itemTokens items).flatMap (.comma :: ·) ++ [Token.closeArray]).foldlM step
        (.complete item (.array done :: stack)) =
      some (.complete (.array (done.reverse ++ item :: items)) stack) := by
  cases items with
  | nil =>
      have hlt : stack.length < maxDepth := by omega
      have hclose : (item :: done).reverse = done.reverse ++ [item] := List.reverse_cons
      rw [← hclose]
      exact congrArg (fun value ↦ some (complete value stack)) (nested_of_lt hlt _)
  | cons next items =>
      rw [areReadable, Bool.and_eq_true] at hitems
      rw [itemsDepth] at hdepth
      have hnext := foldlM_step_tokens next (.array (item :: done) :: stack) false hitems.1
        (by rw [List.length_cons]; omega)
      have hrest := foldlM_step_itemTokens items stack next (item :: done) hitems.2 (by omega)
      rw [List.reverse_cons, List.append_assoc] at hrest
      rw [itemTokens, List.flatMap_cons, List.cons_append, List.cons_append, List.append_assoc]
      change (next.tokens ++ _).foldlM step (.value (.array (item :: done) :: stack) false) = _
      rw [List.foldlM_append, hnext]
      exact hrest

theorem foldlM_step_fieldTokens (fields : List (String × Json)) (stack : List Frame)
    (name : String) (value : Json) (done : List (String × Json))
    (hfields : fieldsAreReadable fields)
    (hdepth : stack.length + (fieldsDepth fields + 1) ≤ maxDepth) :
    ((fieldTokens fields).flatMap (.comma :: ·) ++ [Token.closeObject]).foldlM step
        (.complete value (.object (some done) (some name) :: stack)) =
      some (.complete (.object (done.reverse ++ (name, value) :: fields)) stack) := by
  cases fields with
  | nil =>
      have hlt : stack.length < maxDepth := by omega
      have hclose : ((name, value) :: done).reverse = done.reverse ++ [(name, value)] :=
        List.reverse_cons
      rw [← hclose]
      exact congrArg (fun value ↦ some (complete value stack)) (nested_of_lt hlt _)
  | cons field fields =>
      obtain ⟨nextName, next⟩ := field
      rw [fieldsAreReadable, Bool.and_eq_true] at hfields
      rw [fieldsDepth] at hdepth
      have hnext := foldlM_step_tokens next
        (.object (some ((name, value) :: done)) (some nextName) :: stack) false hfields.1
        (by rw [List.length_cons]; omega)
      have hrest := foldlM_step_fieldTokens fields stack nextName next ((name, value) :: done)
        hfields.2 (by omega)
      rw [List.reverse_cons, List.append_assoc] at hrest
      rw [fieldTokens, List.flatMap_cons, List.cons_append, List.cons_append, List.append_assoc]
      change (next.tokens ++ _).foldlM step
        (.value (.object (some ((name, value) :: done)) (some nextName) :: stack) false) = _
      rw [List.foldlM_append, hnext]
      exact hrest

end

end ReadState

variable {j : Json}

/-- A value is read of its tokens. -/
theorem ofTokens?_tokens (hj : j.isReadable) (hdepth : j.depth ≤ ReadState.maxDepth) :
    ofTokens? j.tokens = some j := by
  have hrun := ReadState.foldlM_step_tokens j [] false hj (by simpa using hdepth)
  rw [ofTokens?, ReadState.start, hrun]
  rfl

/-! ## Texts -/

/-- A text that is read as a value: it is written in the tokens of the value. -/
structure IsText (j : Json) (text : String) : Prop where
  isReadable : j.isReadable
  depth_le : j.depth ≤ ReadState.maxDepth
  written : Token.Written j.tokens text.toList

theorem IsText.read?_eq {text : String} (h : j.IsText text) : read? text = some j := by
  rw [read?, Token.lex?_of_written h.written]
  exact ofTokens?_tokens h.isReadable h.depth_le

theorem mem_intercalate {token : Token} (htoken : token ≠ .comma) {parts : List (List Token)}
    (h : token ∈ [Token.comma].intercalate parts) : ∃ part ∈ parts, token ∈ part := by
  cases parts with
  | nil => simp at h
  | cons part parts =>
      rw [intercalate_cons, List.mem_append, List.mem_flatMap] at h
      rcases h with h | ⟨other, hother, h⟩
      · exact ⟨part, List.mem_cons_self, h⟩
      · refine ⟨other, List.mem_cons_of_mem _ hother, ?_⟩
        exact (List.mem_cons.mp h).resolve_left htoken

mutual

/-- All tokens of a value can be read. -/
theorem unreadableString_notMem_tokens (j : Json) : .unreadableString ∉ j.tokens := by
  cases j with
  | null | bool | integer | number | string | unreadable => simp [tokens]
  | array items =>
      intro h
      have hmem : .unreadableString ∈ [Token.comma].intercalate (itemTokens items) := by
        simpa [tokens] using h
      obtain ⟨part, hpart, h⟩ := mem_intercalate (by nofun) hmem
      exact unreadableString_notMem_itemTokens items part hpart h
  | object fields =>
      intro h
      have hmem : .unreadableString ∈ [Token.comma].intercalate (fieldTokens fields) := by
        simpa [tokens] using h
      obtain ⟨part, hpart, h⟩ := mem_intercalate (by nofun) hmem
      exact unreadableString_notMem_fieldTokens fields part hpart h

theorem unreadableString_notMem_itemTokens (items : List Json) :
    ∀ part ∈ itemTokens items, .unreadableString ∉ part := by
  cases items with
  | nil => nofun
  | cons item items =>
      rw [itemTokens, List.forall_mem_cons]
      exact ⟨unreadableString_notMem_tokens item, unreadableString_notMem_itemTokens items⟩

theorem unreadableString_notMem_fieldTokens (fields : List (String × Json)) :
    ∀ part ∈ fieldTokens fields, .unreadableString ∉ part := by
  cases fields with
  | nil => nofun
  | cons field fields =>
      rw [fieldTokens, List.forall_mem_cons]
      exact ⟨by simpa using unreadableString_notMem_tokens field.2,
        unreadableString_notMem_fieldTokens fields⟩

end

/-- What is read throughout is written in its tokens. -/
theorem written_of_read?_eq {j : Json} {text : String} (h : read? text = some j)
    (hj : j.isReadable) : Token.Written j.tokens text.toList := by
  rw [read?, Option.bind_eq_bind, Option.bind_eq_some_iff] at h
  obtain ⟨ts, hlex, hread⟩ := h
  obtain rfl := eq_tokens_of_ofTokens? hread hj
  exact Token.written_of_lex? hlex (unreadableString_notMem_tokens j)

end VectorQuery.Json
