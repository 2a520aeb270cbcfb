import VectorQuery.Proofs.Json.Rendered

/-!
# Objects of strings

The text of an object whose fields have strings for their values is read as this object,
and no other text is; what is written for it in either style is a text of it.
-/

namespace VectorQuery.Json

/-- Fields with strings for their values. -/
def stringFields (fields : List (String × String)) : List (String × Json) :=
  fields.map fun (name, value) ↦ (name, .string value)

theorem isWritable_object_stringFields (fields : List (String × String)) :
    (object (stringFields fields)).isWritable := by
  rw [isWritable_object]
  intro field hfield
  obtain ⟨_, _, rfl⟩ := List.mem_map.mp hfield
  rfl

theorem reread_object_stringFields (fields : List (String × String)) :
    (object (stringFields fields)).reread = object (stringFields fields) := by
  rw [reread, rereadFields_eq_map, stringFields, List.map_map]
  rfl

theorem isReadable_object_stringFields (fields : List (String × String)) :
    (object (stringFields fields)).isReadable := by
  rw [← reread_object_stringFields]
  exact isReadable_reread _ (isWritable_object_stringFields fields)

theorem depth_object_stringFields_le (fields : List (String × String)) :
    (object (stringFields fields)).depth ≤ 1 := by
  rw [depth_object_le_iff]
  intro field hfield
  obtain ⟨_, _, rfl⟩ := List.mem_map.mp hfield
  exact Nat.le_refl 0

/-! ## Texts -/

/-- A text of an object whose fields have strings for their values: its tokens in their
order, with any blanks around them. -/
def IsObjectText (fields : List (String × String)) (text : String) : Prop :=
  Token.Written (object (stringFields fields)).tokens text.toList

variable {fields : List (String × String)} {text : String}

theorem IsObjectText.isText (h : IsObjectText fields text) :
    (object (stringFields fields)).IsText text :=
  ⟨isReadable_object_stringFields fields,
    (depth_object_stringFields_le fields).trans (by decide), h⟩

theorem read?_eq_some_iff :
    read? text = some (object (stringFields fields)) ↔ IsObjectText fields text :=
  ⟨fun h ↦ written_of_read?_eq h (isReadable_object_stringFields fields), fun h ↦ h.isText.read?_eq⟩

/-- What is written for an object of strings is a text of this object. -/
theorem isObjectText_render (style : Style) (fields : List (String × String)) :
    IsObjectText fields (render style (object (stringFields fields))) := by
  have htext := isText_render style (isWritable_object_stringFields fields)
    ((depth_object_stringFields_le fields).trans (by decide))
  rw [reread_object_stringFields] at htext
  exact htext.written

end VectorQuery.Json
