import VectorQuery.Proofs.Codec.Label
import VectorQuery.Proofs.Instant.Milliseconds

/-!
# Values and scopes in text

The objects for a value, its vector and the samples can have their fields in any order and
others among them, and those of a scope can be in any order.  However their text is laid out,
they are read with the names, the shapes, the samples and the labels that were written, in
the same order.  A number is read as what its digits are read as (`Number.reread`), a time as
what its number of milliseconds stands for, and a number that is not finite makes the whole
unreadable.
-/

namespace VectorQuery

theorem Json.number?_reread_ofFloat (x : Float) :
    (ofFloat x).reread.number? = if x.isFinite then some (Number.reread x) else none := by
  rw [ofFloat]
  split <;> rfl

theorem Json.isReadable_reread_ofFloat (x : Float) : (ofFloat x).reread.isReadable := by
  rw [ofFloat]
  split <;> rfl

theorem Json.isWritable_ofFloat (x : Float) : (ofFloat x).isWritable := by
  rw [ofFloat]
  split
  case isTrue h => exact h
  case isFalse => rfl

theorem Json.depth_ofFloat (x : Float) : (ofFloat x).depth = 0 := by
  rw [ofFloat]
  split <;> rfl

/-- A list is read if each of its items is. -/
theorem mapM_eq_ite {α β γ : Type} {read : γ → Option β} {p : α → Bool} {f : α → β}
    {as : List α} {cs : List γ}
    (h : List.Forall₂ (fun a c ↦ read c = if p a then some (f a) else none) as cs) :
    cs.mapM read = if as.all p then some (as.map f) else none := by
  induction h with
  | nil => rfl
  | @cons a c as cs hc _ ih =>
      rw [List.mapM_cons, hc, ih, List.all_cons, List.map_cons]
      cases p a <;> cases as.all p <;> rfl

theorem forall_of_forall₂_right {α β : Type} {R : α → β → Prop} {p : β → Prop} {as : List α}
    {bs : List β} (h : List.Forall₂ R as bs) (hp : ∀ a b, R a b → p b) : ∀ b ∈ bs, p b := by
  induction h with
  | nil => nofun
  | cons hab _ ih => exact List.forall_mem_cons.mpr ⟨hp _ _ hab, ih⟩

namespace LabelSet

theorem ofJson?_toJson (s : LabelSet) : ofJson? s.toJson = some s := by
  rw [toJson, ← Json.stringFields, ofJson?_stringFields, ofPairs_pairs]

theorem isWritable_toJson (s : LabelSet) : s.toJson.isWritable :=
  Json.isWritable_object_stringFields s.pairs

theorem reread_toJson (s : LabelSet) : s.toJson.reread = s.toJson :=
  Json.reread_object_stringFields s.pairs

theorem isReadable_toJson (s : LabelSet) : s.toJson.isReadable :=
  Json.isReadable_object_stringFields s.pairs

theorem depth_toJson_le (s : LabelSet) : s.toJson.depth ≤ 1 :=
  Json.depth_object_stringFields_le s.pairs

end LabelSet

/-! ## Samples -/

namespace Sample

/-- What a sample is read as: an object with its fields in any order, and others among
them. -/
inductive Spelling (s : Sample) : Json → Prop where
  | object {fields : List (String × Json)}
      (h : Json.FieldsOf [("labels", s.labels.toJson), ("value", (Json.ofFloat s.value).reread)]
        fields) :
      Spelling s (.object fields)

/-- The sample with the number that its digits are read as. -/
def reread (s : Sample) : Sample := ⟨s.labels, Number.reread s.value⟩

variable {s : Sample} {j : Json}

theorem spelling_reread_toJson (s : Sample) : s.Spelling s.toJson.reread := by
  have hjson : s.toJson.reread =
      .object [("labels", s.labels.toJson.reread), ("value", (Json.ofFloat s.value).reread)] := rfl
  rw [hjson, LabelSet.reread_toJson]
  exact .object (.refl _)

/-- A sample is read unless its number is not finite. -/
theorem Spelling.ofJson?_eq (h : s.Spelling j) :
    ofJson? j = if s.value.isFinite then some s.reread else none := by
  cases h with
  | @object fields h =>
      have hrecord : (Json.object fields).record? ["labels", "value"] =
        some [s.labels.toJson, (Json.ofFloat s.value).reread] := h.record?_eq_some (by simp)
      rw [ofJson?, hrecord]
      simp only [Option.bind_eq_bind, Option.bind_some, LabelSet.ofJson?_toJson,
        Json.number?_reread_ofFloat]
      split <;> rfl

theorem Spelling.isReadable (h : s.Spelling j) : j.isReadable := by
  cases h with
  | object h =>
      exact h.isReadable (by simp [LabelSet.isReadable_toJson, Json.isReadable_reread_ofFloat])

theorem isWritable_toJson (s : Sample) : s.toJson.isWritable := by
  rw [toJson, Json.isWritable_object]
  simp [LabelSet.isWritable_toJson, Json.isWritable_ofFloat]

theorem depth_toJson_le (s : Sample) : s.toJson.depth ≤ 2 := by
  rw [toJson, Json.depth_object_le_iff]
  simp [LabelSet.depth_toJson_le, Json.depth_ofFloat]

end Sample

/-! ## Vectors -/

namespace InstantVector

/-- What a vector is read as: an object with its fields in any order, and others among
them. -/
inductive Spelling (v : InstantVector) : Json → Prop where
  | object {samples : List Json} {fields : List (String × Json)}
      (hsamples : List.Forall₂ Sample.Spelling v.samples samples)
      (h : Json.FieldsOf [("time", (Json.ofFloat v.time.toUnixMilliseconds).reread),
        ("samples", .array samples)] fields) :
      Spelling v (.object fields)

/-- The numbers of all samples are finite. -/
def isFinite (v : InstantVector) : Bool := v.samples.all (·.value.isFinite)

/-- The vector with what its digits are read as: the numbers of the samples, and the time at
the number of milliseconds. -/
def reread (v : InstantVector) : InstantVector :=
  ⟨.ofUnixMillisecondsFloat (Number.reread v.time.toUnixMilliseconds),
    v.samples.map Sample.reread⟩

variable {v : InstantVector} {j : Json}

theorem spelling_reread_toJson (v : InstantVector) : v.Spelling v.toJson.reread := by
  have hjson : v.toJson.reread =
      .object [("time", (Json.ofFloat v.time.toUnixMilliseconds).reread),
        ("samples", .array (Json.rereadItems (v.samples.map Sample.toJson)))] := rfl
  rw [hjson, Json.rereadItems_eq_map, List.map_map]
  refine .object ?_ (.refl _)
  rw [List.forall₂_map_right_iff, List.forall₂_same]
  exact fun s _ ↦ s.spelling_reread_toJson

/-- The samples of a vector, of the JSON for them. -/
def samplesOfJson? (j : Json) : Option (List Sample) := do (← j.array?).mapM Sample.ofJson?

theorem ofJson?_eq {j timeJson samplesJson : Json} {x : Float}
    (hj : j.record? ["time", "samples"] = some [timeJson, samplesJson])
    (hx : timeJson.number? = some x) :
    ofJson? j = (samplesOfJson? samplesJson).map (⟨.ofUnixMillisecondsFloat x, ·⟩) := by
  rw [ofJson?, hj]
  change (timeJson.number?.bind fun x ↦ samplesJson.array?.bind fun items ↦
    (items.mapM Sample.ofJson?).bind fun samples ↦ some _) = _
  rw [hx, samplesOfJson?]
  cases samplesJson.array? with
  | none => rfl
  | some items => cases h : items.mapM Sample.ofJson? <;> simp [h]

/-- A vector is read unless a number of its samples is not finite. -/
theorem Spelling.ofJson?_eq (h : v.Spelling j) :
    ofJson? j = if v.isFinite then some v.reread else none := by
  cases h with
  | @object samples fields hsamples h =>
      have hrecord : (Json.object fields).record? ["time", "samples"] =
        some [(Json.ofFloat v.time.toUnixMilliseconds).reread, .array samples] :=
        h.record?_eq_some (by simp)
      have htime : (Json.ofFloat v.time.toUnixMilliseconds).reread.number? =
          some (Number.reread v.time.toUnixMilliseconds) := by
        rw [Json.number?_reread_ofFloat, if_pos v.time.isFinite_toUnixMilliseconds]
      have hread : samples.mapM Sample.ofJson? =
          if v.isFinite then some (v.samples.map Sample.reread) else none :=
        mapM_eq_ite (hsamples.imp fun s j h ↦ h.ofJson?_eq)
      rw [InstantVector.ofJson?_eq hrecord htime, samplesOfJson?, Json.array?,
        Option.bind_eq_bind, Option.bind_some, hread]
      split <;> rfl

theorem Spelling.isReadable (h : v.Spelling j) : j.isReadable := by
  cases h with
  | @object samples _ hsamples h =>
      have hreadable : (Json.array samples).isReadable :=
        Json.isReadable_array.mpr
          (forall_of_forall₂_right hsamples fun _ _ h ↦ h.isReadable)
      exact h.isReadable (by simp [Json.isReadable_reread_ofFloat, hreadable])

theorem isWritable_toJson (v : InstantVector) : v.toJson.isWritable := by
  have hsamples : (Json.array (v.samples.map Sample.toJson)).isWritable := by
    rw [Json.isWritable_array, List.forall_mem_map]
    exact fun s _ ↦ s.isWritable_toJson
  rw [toJson, Json.isWritable_object]
  simp [Json.isWritable_ofFloat, hsamples]

theorem depth_toJson_le (v : InstantVector) : v.toJson.depth ≤ 4 := by
  have hsamples : (Json.array (v.samples.map Sample.toJson)).depth ≤ 3 := by
    rw [Json.depth_array_le_iff, List.forall_mem_map]
    exact fun s _ ↦ s.depth_toJson_le
  rw [toJson, Json.depth_object_le_iff]
  simp [Json.depth_ofFloat, hsamples]

/-- What is written for a vector is read unless a number of its samples is not finite. -/
theorem ofJsonText?_toJsonText (style : Json.Style) (v : InstantVector) :
    ofJsonText? (v.toJsonText style) = if v.isFinite then some v.reread else none := by
  have htext :=
    Json.isText_render style v.isWritable_toJson (v.depth_toJson_le.trans (by decide))
  rw [ofJsonText?, toJsonText, htext.read?_eq]
  exact v.spelling_reread_toJson.ofJson?_eq

end InstantVector

/-! ## Values -/

namespace Value

/-- What a value is read as: an object with its fields in any order, and others among
them. -/
inductive Spelling : Value → Json → Prop where
  | scalar {x : Float} {fields : List (String × Json)}
      (h : Json.FieldsOf [("type", .string "scalar"), ("value", (Json.ofFloat x).reread)]
        fields) :
      Spelling (.scalar x) (.object fields)
  | vector {v : InstantVector} {content : Json} {fields : List (String × Json)}
      (hv : v.Spelling content)
      (h : Json.FieldsOf [("type", .string "vector"), ("value", content)] fields) :
      Spelling (.vector v) (.object fields)

/-- A text with a spelling of a value. -/
def IsText (v : Value) (text : String) : Prop := ∃ j, v.Spelling j ∧ j.IsText text

/-- All numbers of a value are finite. -/
def isFinite : Value → Bool
  | .scalar x => x.isFinite
  | .vector v => v.isFinite

/-- The value with what its digits are read as. -/
def reread : Value → Value
  | .scalar x => .scalar (Number.reread x)
  | .vector v => .vector v.reread

variable {v : Value} {j : Json} {text : String}

theorem spelling_reread_toJson (v : Value) : v.Spelling v.toJson.reread := by
  cases v with
  | scalar x => exact .scalar (.refl _)
  | vector v => exact .vector v.spelling_reread_toJson (.refl _)

theorem isWritable_toJson (v : Value) : v.toJson.isWritable := by
  cases v with
  | scalar x =>
      rw [toJson, Json.isWritable_object]
      simp [Json.isWritable, Json.isWritable_ofFloat]
  | vector v =>
      rw [toJson, Json.isWritable_object]
      simp [Json.isWritable, v.isWritable_toJson]

theorem depth_toJson_le (v : Value) : v.toJson.depth ≤ 5 := by
  cases v with
  | scalar x =>
      rw [toJson, Json.depth_object_le_iff]
      simp [Json.depth, Json.depth_ofFloat]
  | vector v =>
      rw [toJson, Json.depth_object_le_iff]
      simp [Json.depth, v.depth_toJson_le]

/-- What is written for a value is one of its texts. -/
theorem isText_toJsonText (style : Json.Style) (v : Value) : v.IsText (v.toJsonText style) :=
  ⟨_, v.spelling_reread_toJson,
    Json.isText_render style v.isWritable_toJson (v.depth_toJson_le.trans (by decide))⟩

/-- A value is read by its type, on whichever side of the content that stands. -/
theorem ofJson?_of_fieldsOf {type : String} {content : Json} {fields : List (String × Json)}
    (h : Json.FieldsOf [("type", .string type), ("value", content)] fields)
    (hcontent : content.isReadable) : ofJson? (.object fields) = ofContent? type content := by
  have hnodup : (["type", "value"] : List String).Nodup := by decide
  have htype : Json.field? fields "type" = some (.string type) :=
    h.field?_eq_some hnodup List.mem_cons_self
  have hvalue : Json.field? fields "value" = some content :=
    h.field?_eq_some hnodup (List.mem_cons_of_mem _ List.mem_cons_self)
  rw [ofJson?, htype, hvalue]
  simp [Json.unitName?, Json.unitNameWith?, hcontent]

/-- A value is read unless one of its numbers is not finite. -/
theorem Spelling.ofJson?_eq (h : v.Spelling j) :
    ofJson? j = if v.isFinite then some v.reread else none := by
  cases h with
  | @scalar x _ h =>
      rw [ofJson?_of_fieldsOf h (Json.isReadable_reread_ofFloat x), ofContent?,
        Json.number?_reread_ofFloat, isFinite]
      split <;> rfl
  | @vector v _ _ hv h =>
      rw [ofJson?_of_fieldsOf h hv.isReadable, ofContent?, hv.ofJson?_eq, isFinite]
      split <;> rfl

theorem IsText.ofJsonText?_eq (h : v.IsText text) :
    ofJsonText? text = if v.isFinite then some v.reread else none := by
  obtain ⟨j, hj, htext⟩ := h
  rw [ofJsonText?, htext.read?_eq]
  exact hj.ofJson?_eq

end Value

/-! ## Scopes -/

namespace Scope

/-- What a scope is read as: an object with a spelling for each value, in any order. -/
inductive Spelling (scope : Scope) : Json → Prop where
  | object {bindings : List (String × Value)} {fields : List (String × Json)}
      (horder : bindings.Perm scope.toList)
      (hfields : List.Forall₂ (fun b field ↦ field.1 = b.1 ∧ b.2.Spelling field.2)
        bindings fields) :
      Spelling scope (.object fields)

/-- A text with a spelling of a scope. -/
def IsText (scope : Scope) (text : String) : Prop := ∃ j, scope.Spelling j ∧ j.IsText text

variable {bindings : List (String × Value)} {scope : Scope} {name : String} {value : Value}
  {j : Json}

theorem ofBindings_eq_insertMany (bindings : List (String × Value)) :
    ofBindings bindings = (∅ : Scope).insertMany bindings := by
  rw [ofBindings]
  generalize (∅ : Scope) = scope
  induction bindings generalizing scope with
  | nil => simp
  | cons b bindings ih => rw [List.foldl_cons, ih, Std.TreeMap.insertMany_cons]

/-- If no name is bound twice, the order of the bindings does not matter. -/
theorem getElem?_ofBindings_eq_some_iff
    (h : bindings.Pairwise fun a b ↦ ¬compare a.1 b.1 = .eq) :
    (ofBindings bindings)[name]? = some value ↔ (name, value) ∈ bindings := by
  rw [ofBindings_eq_insertMany]
  have hmem {value : Value} (hvalue : (name, value) ∈ bindings) :
      ((∅ : Scope).insertMany bindings)[name]? = some value :=
    Std.TreeMap.getElem?_insertMany_list_of_mem Std.compare_self h hvalue
  refine ⟨fun hvalue ↦ ?_, hmem⟩
  cases hcontains : (bindings.map Prod.fst).contains name with
  | true =>
      obtain ⟨⟨_, other⟩, hother, rfl⟩ := List.mem_map.mp (List.contains_iff_mem.mp hcontains)
      obtain rfl := Option.some.inj ((hmem hother).symm.trans hvalue)
      exact hother
  | false =>
      rw [Std.TreeMap.getElem?_insertMany_list_of_contains_eq_false hcontains] at hvalue
      simp at hvalue

theorem mem_iff_of_perm (h : bindings.Perm scope.toList) :
    (name, value) ∈ bindings ↔ scope[name]? = some value := by
  rw [h.mem_iff, Std.TreeMap.mem_toList_iff_getElem?_eq_some]

theorem spelling_reread_toJson (scope : Scope) : scope.Spelling scope.toJson.reread := by
  have hjson : scope.toJson.reread =
      .object (Json.rereadFields (scope.toList.map fun b ↦ (b.1, b.2.toJson))) := rfl
  rw [hjson, Json.rereadFields_eq_map, List.map_map]
  refine .object (.refl _) ?_
  rw [List.forall₂_map_right_iff, List.forall₂_same]
  exact fun b _ ↦ ⟨rfl, b.2.spelling_reread_toJson⟩

theorem isWritable_toJson (scope : Scope) : scope.toJson.isWritable := by
  rw [toJson, Json.isWritable_object, List.forall_mem_map]
  exact fun b _ ↦ b.2.isWritable_toJson

theorem depth_toJson_le (scope : Scope) : scope.toJson.depth ≤ 6 := by
  rw [toJson, Json.depth_object_le_iff, List.forall_mem_map]
  exact fun b _ ↦ b.2.depth_toJson_le

/-- What is written for a scope is one of its texts. -/
theorem isText_toJsonText (style : Json.Style) (scope : Scope) :
    scope.IsText (scope.toJsonText style) :=
  ⟨_, scope.spelling_reread_toJson,
    Json.isText_render style scope.isWritable_toJson (scope.depth_toJson_le.trans (by decide))⟩

theorem ofJson?_object (fields : List (String × Json)) :
    ofJson? (.object fields) =
      (fields.mapM fun field ↦ (field.1, ·) <$> Value.ofJson? field.2).bind
        fun bindings ↦ some (ofBindings bindings) :=
  rfl

/-- A scope is read binding by binding, unless one of its numbers is not finite. -/
theorem Spelling.exists_ofJson?_eq (h : scope.Spelling j) :
    ∃ bindings : List (String × Value), bindings.Perm scope.toList ∧ ofJson? j =
      if bindings.all (·.2.isFinite) then
        some (ofBindings (bindings.map fun b ↦ (b.1, b.2.reread)))
      else none := by
  cases h with
  | @object bindings fields horder hfields =>
      refine ⟨bindings, horder, ?_⟩
      have hread : fields.mapM (fun field ↦ (field.1, ·) <$> Value.ofJson? field.2) =
          if bindings.all (·.2.isFinite) then some (bindings.map fun b ↦ (b.1, b.2.reread))
          else none := by
        refine mapM_eq_ite (hfields.imp ?_)
        rintro ⟨name, value⟩ ⟨_, content⟩ ⟨rfl, hvalue⟩
        dsimp only at hvalue ⊢
        rw [hvalue.ofJson?_eq]
        split <;> rfl
      rw [ofJson?_object, hread]
      split <;> rfl

/-- Whatever the order of the bindings, the scope that is read has the same names. -/
theorem getElem?_ofBindings_reread (h : bindings.Perm scope.toList) (name : String) :
    (ofBindings (bindings.map fun b ↦ (b.1, b.2.reread)))[name]? =
      scope[name]?.map Value.reread := by
  have hdistinct : (bindings.map fun b ↦ (b.1, b.2.reread)).Pairwise
      fun a b ↦ ¬compare a.1 b.1 = .eq :=
    List.pairwise_map.mpr (h.symm.pairwise Std.TreeMap.distinct_keys_toList
      fun hne heq ↦ hne (Std.OrientedCmp.eq_symm heq))
  ext value
  rw [getElem?_ofBindings_eq_some_iff hdistinct, Option.map_eq_some_iff, List.mem_map]
  constructor
  · rintro ⟨⟨_, value⟩, hmem, hvalue⟩
    obtain ⟨rfl, rfl⟩ := Prod.mk.inj hvalue
    exact ⟨value, (mem_iff_of_perm h).mp hmem, rfl⟩
  · rintro ⟨value, hvalue, rfl⟩
    exact ⟨(name, value), (mem_iff_of_perm h).mpr hvalue, rfl⟩

/-- However the text of a scope is laid out, the names are read with what the texts of their
values are read as. -/
theorem IsText.exists_ofJsonText?_eq {text : String} (h : scope.IsText text)
    (hfinite : ∀ (name : String) (value : Value), scope[name]? = some value → value.isFinite) :
    ∃ scope' : Scope, ofJsonText? text = some scope' ∧
      ∀ name : String, scope'[name]? = scope[name]?.map Value.reread := by
  obtain ⟨j, hj, htext⟩ := h
  obtain ⟨bindings, horder, hread⟩ := hj.exists_ofJson?_eq
  have hall : bindings.all (·.2.isFinite) := List.all_eq_true.mpr fun b hb ↦
    hfinite b.1 b.2 ((mem_iff_of_perm horder).mp hb)
  rw [if_pos hall] at hread
  refine ⟨_, ?_, getElem?_ofBindings_reread horder⟩
  rw [ofJsonText?, htext.read?_eq]
  exact hread

/-- A scope in which a number is not finite is refused. -/
theorem IsText.ofJsonText?_eq_none {text : String} (h : scope.IsText text)
    (hvalue : scope[name]? = some value) (hfinite : ¬value.isFinite) : ofJsonText? text = none := by
  obtain ⟨j, hj, htext⟩ := h
  obtain ⟨bindings, horder, hread⟩ := hj.exists_ofJson?_eq
  have hall : ¬bindings.all (·.2.isFinite) := fun hall ↦
    hfinite (List.all_eq_true.mp hall _ ((mem_iff_of_perm horder).mpr hvalue))
  rw [if_neg hall] at hread
  rw [ofJsonText?, htext.read?_eq]
  exact hread

end Scope

/-- What is written for a value or a scope is a text of it, and each text of it is read as
what has been written with what the digits of its numbers are read as, if all of them are
finite.  Otherwise it is refused.  The digits of a number name this number; what they are read
as differs by a 2⁻⁴⁹ part of it at most, or by twice the smallest number there is, and not at
all if neither their coefficient nor the power of ten behind it needs rounding. -/
theorem reads_texts_of_values_and_scopes :
    (∀ v : Value, (∀ style, v.IsText (v.toJsonText style)) ∧ ∀ text, v.IsText text →
      Value.ofJsonText? text = if v.isFinite then some v.reread else none) ∧
    (∀ scope : Scope, (∀ style, scope.IsText (scope.toJsonText style)) ∧
      ∀ text, scope.IsText text →
        ((∀ (name : String) (value : Value), scope[name]? = some value → value.isFinite) →
          ∃ scope' : Scope, Scope.ofJsonText? text = some scope' ∧
            ∀ name : String, scope'[name]? = scope[name]?.map Value.reread) ∧
        ((∃ (name : String) (value : Value), scope[name]? = some value ∧ ¬value.isFinite) →
          Scope.ofJsonText? text = none)) ∧
    ∀ x : Float, x.isFinite → ∃ (l : Number.Literal) (p q : ℚ),
      Json.NumberText.literal? (Number.Layout.json.number x) = some l ∧
      l.float? = some (Number.reread x) ∧ l.negative = Number.isNegative x ∧
      Number.value? x = some p ∧ Number.nearest l.decimal.value = |p| ∧
      Number.value? (Number.reread x) = some q ∧
      |q - p| ≤ |p| * 2 ^ (-49 : ℤ) + 2 ^ (-1073 : ℤ) ∧
      (Number.Representable l.decimal.coefficient → |l.decimal.exponent| ≤ 22 →
        Number.reread x = x) := by
  refine ⟨fun v ↦ ⟨fun style ↦ v.isText_toJsonText style, fun text h ↦ h.ofJsonText?_eq⟩,
    fun scope ↦ ⟨fun style ↦ scope.isText_toJsonText style, fun text h ↦ ?_⟩, fun x hx ↦ ?_⟩
  · refine ⟨fun hfinite ↦ h.exists_ofJsonText?_eq hfinite, ?_⟩
    rintro ⟨name, value, hvalue, hfinite⟩
    exact h.ofJsonText?_eq_none hvalue hfinite
  · obtain ⟨p, hp⟩ := Number.exists_value?_of_isFinite hx
    obtain ⟨l, hliteral, -, hnegative, hdecimal, hfloat⟩ := Number.exists_literal?_reread hp
    obtain ⟨q, hq, herr⟩ := Number.exists_value?_reread hp
    refine ⟨l, p, q, hliteral, hfloat, hnegative, hp, ?_, hq, herr, ?_⟩
    · rw [hdecimal, Number.nearest_value_written hp]
    · rw [hdecimal]
      exact fun hcoefficient hexponent ↦ Number.reread_eq_self hp ⟨hcoefficient, hexponent⟩

/-- The eleventh part of one is written in digits that name it, and read again as the next
number. -/
theorem ofJsonText?_eleventh :
    (1 / 11 : Float).isFinite ∧
      (Value.scalar (1 / 11)).toJsonText .compact =
        "\x7b\"type\":\"scalar\",\"value\":0.09090909090909091\x7d" ∧
      Value.ofJsonText? ((Value.scalar (1 / 11)).toJsonText .compact) =
        some (.scalar (.ofBits 0x3fb745d1745d1747)) ∧
      (1 / 11 : Float) = .ofBits 0x3fb745d1745d1746 ∧
      Value.scalar (.ofBits 0x3fb745d1745d1747) ≠ .scalar (1 / 11) := by
  have hreread : Number.reread (1 / 11) = .ofBits 0x3fb745d1745d1747 := by decide +kernel
  have hfinite : (Value.scalar (1 / 11)).isFinite := by decide +kernel
  refine ⟨hfinite, by decide +kernel, ?_, by decide +kernel, by decide +kernel⟩
  rw [(Value.isText_toJsonText .compact _).ofJsonText?_eq, if_pos hfinite, Value.reread, hreread]

/-- Two hosts, one of them with half a core. -/
def officeHosts : InstantVector :=
  .ofRows (.ofUnixSeconds 5) [([("host", "h1")], 0.5), ([("dc", "oslo"), ("host", "h2")], 7)]

/-- The hosts of an office and how many there may be. -/
def office : Scope := .ofBindings [("hosts", .vector officeHosts), ("limit", .scalar 50)]

/-- The first of the hosts, its number first. -/
def firstHostJson : Json :=
  .object [("value", .ofFloat 0.5), ("labels", (LabelSet.ofPairs [("host", "h1")]).toJson)]

/-- The hosts with a unit, their samples first. -/
def officeHostsJson : Json :=
  .object
    [("samples", .array
      [firstHostJson, Sample.toJson ⟨.ofPairs [("dc", "oslo"), ("host", "h2")], 7⟩]),
     ("unit", .string "cores"),
     ("time", .ofFloat (Instant.ofUnixSeconds 5).toUnixMilliseconds)]

/-- The office, the limit first, with the contents in front of their types and a note. -/
def officeJson : Json :=
  .object
    [("limit", .object [("value", .ofFloat 50), ("note", .null), ("type", .string "scalar")]),
     ("hosts", .object [("value", officeHostsJson), ("type", .string "vector")])]

theorem spelling_officeHostsJson : officeHosts.Spelling officeHostsJson.reread := by
  have hfirst : Sample.Spelling ⟨.ofPairs [("host", "h1")], 0.5⟩ firstHostJson.reread :=
    .object ⟨[], .swap _ _ _, nofun⟩
  refine .object (.cons hfirst (.cons (Sample.spelling_reread_toJson _) .nil)) ?_
  refine ⟨[("unit", .string "cores")], @List.perm_append_comm _ [_, _] [_], ?_⟩
  exact List.forall_mem_singleton.mpr ⟨by simp, rfl⟩

theorem spelling_officeJson : office.Spelling officeJson.reread := by
  have hlimit : Json.FieldsOf [("type", .string "scalar"), ("value", (Json.ofFloat 50).reread)]
      [("value", (Json.ofFloat 50).reread), ("note", .null), ("type", .string "scalar")] := by
    refine ⟨[("note", .null)], @List.perm_append_comm _ [_, _] [_], ?_⟩
    exact List.forall_mem_singleton.mpr ⟨by simp, rfl⟩
  have horder : [("limit", Value.scalar 50), ("hosts", .vector officeHosts)].Perm
    office.toList := .swap _ _ _
  exact .object horder (.cons ⟨rfl, .scalar hlimit⟩
    (.cons ⟨rfl, .vector spelling_officeHostsJson ⟨[], .swap _ _ _, nofun⟩⟩ .nil))

theorem isText_officeJson : office.IsText (officeJson.render .pretty) := by
  refine ⟨_, spelling_officeJson, Json.isText_render .pretty ?_ ?_⟩
  · decide +kernel
  · decide +kernel

/-- The hosts and the limit are read again, however the office is written, but with a limit
that is infinite it is refused. -/
theorem reads_texts_of_office :
    office.IsText (officeJson.render .pretty) ∧
    (∀ (name : String) (value : Value), office[name]? = some value → value.isFinite) ∧
    (∃ scope' : Scope, Scope.ofJsonText? (officeJson.render .pretty) = some scope' ∧
      scope'["hosts"]? = some (.vector officeHosts) ∧ scope'["limit"]? = some (.scalar 50) ∧
      scope'["racks"]? = none) ∧
    Scope.ofJsonText? (Scope.toJsonText .compact (office.insert "limit" (.scalar (1 / 0)))) = none ∧
    (0.5 : Float).isFinite ∧
    Json.NumberText.literal? (Number.Layout.json.number 0.5) =
      some ⟨false, ['0'], some ['5'], none⟩ ∧
    Number.reread 0.5 = 0.5 := by
  have hall : ∀ b ∈ office.toList, b.2.isFinite := by decide +kernel
  have hfinite (name : String) (value : Value) (h : office[name]? = some value) :
      value.isFinite :=
    hall (name, value) ((Scope.mem_iff_of_perm (.refl _)).mpr h)
  obtain ⟨-, hscopes, hnumbers⟩ := reads_texts_of_values_and_scopes
  obtain ⟨hread, -⟩ := (hscopes office).2 _ isText_officeJson
  obtain ⟨scope', hscope', hget⟩ := hread hfinite
  refine ⟨isText_officeJson, hfinite, ⟨scope', hscope', ?_, ?_, ?_⟩, ?_, ?_⟩
  · rw [hget]
    decide +kernel
  · rw [hget]
    decide +kernel
  · rw [hget]
    decide +kernel
  · obtain ⟨hwritten, hrefused⟩ := hscopes (office.insert "limit" (.scalar (1 / 0)))
    refine (hrefused _ (hwritten .compact)).2 ⟨"limit", .scalar (1 / 0), ?_, ?_⟩
    · simp
    · decide +kernel
  · have hhalf : (0.5 : Float).isFinite := by decide +kernel
    have hdigits : Json.NumberText.literal? (Number.Layout.json.number 0.5) =
        some ⟨false, ['0'], some ['5'], none⟩ := by decide +kernel
    obtain ⟨l, -, -, hliteral, -, -, -, -, -, -, hexact⟩ := hnumbers 0.5 hhalf
    obtain rfl := Option.some.inj (hliteral.symm.trans hdigits)
    have hdecimal : (Number.Literal.mk false ['0'] (some ['5']) none).decimal = ⟨5, -1⟩ := by
      decide +kernel
    rw [hdecimal] at hexact
    have hfive : Number.Representable (5 : ℕ) :=
      Number.representable_of_abs_le (n := 5) (by norm_num)
    exact ⟨hhalf, hdigits, hexact hfive (by norm_num)⟩

end VectorQuery
