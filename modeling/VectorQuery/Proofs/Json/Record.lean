import Mathlib.Data.List.Perm.Basic
import VectorQuery.Json.Basic

/-!
# Fields of records

A field is found if it occurs exactly once, wherever it stands and whatever other fields
there are.  If it is taken out or put in once more, it is not found any longer, and the
other fields are found as before.
-/

namespace VectorQuery.Json

/-! ## Values that can be read -/

theorem areReadable_iff {items : List Json} :
    areReadable items ↔ ∀ item ∈ items, item.isReadable := by
  induction items with
  | nil => simp [areReadable]
  | cons item items ih => simp [areReadable, ih]

theorem fieldsAreReadable_iff {fields : List (String × Json)} :
    fieldsAreReadable fields ↔ ∀ field ∈ fields, field.2.isReadable := by
  induction fields with
  | nil => simp [fieldsAreReadable]
  | cons field fields ih => simp [fieldsAreReadable, ih]

theorem isReadable_array {items : List Json} :
    (array items).isReadable ↔ ∀ item ∈ items, item.isReadable := by
  rw [isReadable, areReadable_iff]

theorem isReadable_object {fields : List (String × Json)} :
    (object fields).isReadable ↔ ∀ field ∈ fields, field.2.isReadable := by
  rw [isReadable, fieldsAreReadable_iff]

theorem isReadable_ofFloat (x : Float) : (ofFloat x).isReadable := by
  rw [ofFloat]
  split <;> rfl

/-! ## Single fields -/

variable {α β : Type} {fields fields' : List (String × α)} {name : String} {value : α}

theorem field?_eq_some_iff :
    field? fields name = some value ↔ fields.filter (·.1 = name) = [(name, value)] := by
  rw [field?]
  split
  · rename_i field found hfilter
    have hname : field = name := by
      have hmem : (field, found) ∈ fields.filter (·.1 = name) := by
        rw [hfilter]
        exact List.mem_singleton_self _
      simpa using (List.mem_filter.mp hmem).2
    simp [hfilter, hname]
  · rename_i hfilter
    simp only [reduceCtorEq, false_iff]
    exact hfilter name value

theorem isSome_field?_iff :
    (field? fields name).isSome ↔ (fields.filter (·.1 = name)).length = 1 := by
  constructor
  · intro h
    obtain ⟨value, hvalue⟩ := Option.isSome_iff_exists.mp h
    rw [field?_eq_some_iff.mp hvalue, List.length_singleton]
  · intro h
    obtain ⟨field, hfield⟩ := List.length_eq_one_iff.mp h
    rw [field?, hfield]
    rfl

/-- The order of the fields does not matter. -/
theorem field?_perm (h : fields.Perm fields') (name : String) :
    field? fields name = field? fields' name := by
  have hfilter := h.filter (·.1 = name)
  ext value
  rw [field?_eq_some_iff, field?_eq_some_iff]
  constructor
  · intro hfields
    rw [hfields] at hfilter
    exact List.perm_singleton.mp hfilter.symm
  · intro hfields
    rw [hfields] at hfilter
    exact List.perm_singleton.mp hfilter

/-- Fields of other names do not matter. -/
theorem field?_append_of_ne {others : List (String × α)} (h : ∀ field ∈ others, field.1 ≠ name) :
    field? (fields ++ others) name = field? fields name := by
  have hothers : others.filter (·.1 = name) = [] := by
    simpa using fun field value hfield ↦ h (field, value) hfield
  simp only [field?, List.filter_append, hothers, List.append_nil]

theorem field?_eq_some_of_mem (hnodup : (fields.map (·.1)).Nodup) (h : (name, value) ∈ fields) :
    field? fields name = some value := by
  induction fields with
  | nil => cases h
  | cons field fields ih =>
      rw [List.map_cons, List.nodup_cons] at hnodup
      obtain ⟨hfield, hnodup⟩ := hnodup
      rcases List.mem_cons.mp h with rfl | h
      · rw [field?_eq_some_iff, List.filter_cons_of_pos (by simp), List.filter_eq_nil_iff.mpr]
        intro other hother heq
        exact hfield (List.mem_map.mpr ⟨other, hother, by simpa using heq⟩)
      · have hne : field.1 ≠ name := by
          rintro rfl
          exact hfield (List.mem_map.mpr ⟨_, h, rfl⟩)
        rw [field?, List.filter_cons_of_neg (by simpa using hne)]
        exact ih hnodup h

theorem field?_map (f : α → β) (fields : List (String × α)) (name : String) :
    field? (fields.map fun field ↦ (field.1, f field.2)) name = (field? fields name).map f := by
  rw [field?, List.filter_map]
  simp only [Function.comp_def, field?]
  cases fields.filter (·.1 = name) with
  | nil => rfl
  | cons field rest => cases rest <;> rfl

/-! ## Several values -/

/-- What is written item by item is read item by item. -/
theorem mapM_map_eq_some {write : α → β} {read : β → Option α}
    (h : ∀ a, read (write a) = some a) (as : List α) : (as.map write).mapM read = some as := by
  induction as with
  | nil => rfl
  | cons a as ih =>
      rw [List.map_cons, List.mapM_cons, h, ih]
      rfl

/-- Fields that are each found are found together. -/
theorem mapM_field?_eq_some {names : List String} {values : List α}
    (hlength : names.length = values.length)
    (h : ∀ entry ∈ names.zip values, field? fields entry.1 = some entry.2) :
    names.mapM (field? fields) = some values := by
  induction names generalizing values with
  | nil =>
      obtain rfl := List.eq_nil_of_length_eq_zero hlength.symm
      rfl
  | cons name names ih =>
      cases values with
      | nil => cases hlength
      | cons value values =>
          have hname : field? fields name = some value := h (name, value) List.mem_cons_self
          have hnames := ih (Nat.succ.inj hlength) fun entry hentry ↦
            h entry (List.mem_cons_of_mem _ hentry)
          simp [List.mapM_cons, hname, hnames]

theorem mapM_field?_eq_none {names : List String} (hname : name ∈ names)
    (h : field? fields name = none) : names.mapM (field? fields) = none := by
  induction names with
  | nil => cases hname
  | cons first names ih =>
      rw [List.mapM_cons]
      rcases List.mem_cons.mp hname with rfl | hname
      · rw [h]
        rfl
      · cases field? fields first with
        | none => rfl
        | some value => rw [ih hname]; rfl

theorem mapM_field?_map (f : α → β) (fields : List (String × α)) (names : List String) :
    names.mapM (field? (fields.map fun field ↦ (field.1, f field.2))) =
      (names.mapM (field? fields)).map (List.map f) := by
  induction names with
  | nil => rfl
  | cons name names ih =>
      rw [List.mapM_cons, List.mapM_cons, ih, field?_map]
      cases field? fields name <;> cases names.mapM (field? fields) <;> rfl

/-! ## Fields among others -/

/-- The fields are some entries with others among them, in any order.  What the others hold
does not matter, as long as it is a value. -/
def FieldsOf (entries fields : List (String × Json)) : Prop :=
  ∃ others, fields.Perm (entries ++ others) ∧
    ∀ field ∈ others, field.1 ∉ entries.map (·.1) ∧ field.2.isReadable

section FieldsOf

variable {entries fields : List (String × Json)}

theorem FieldsOf.refl (entries : List (String × Json)) : FieldsOf entries entries :=
  ⟨[], by rw [List.append_nil], nofun⟩

/-- Each entry is found, wherever it stands. -/
theorem FieldsOf.field?_eq_some (h : FieldsOf entries fields)
    (hnodup : (entries.map (·.1)).Nodup) {entry : String × Json} (hentry : entry ∈ entries) :
    field? fields entry.1 = some entry.2 := by
  obtain ⟨others, hperm, hothers⟩ := h
  rw [field?_perm hperm, field?_append_of_ne]
  · exact field?_eq_some_of_mem hnodup hentry
  · intro field hfield heq
    exact (hothers field hfield).1 (heq ▸ List.mem_map_of_mem hentry)

/-- The entries of a record are found in the order of its names. -/
theorem FieldsOf.record?_eq_some (h : FieldsOf entries fields)
    (hnodup : (entries.map (·.1)).Nodup) :
    (object fields).record? (entries.map (·.1)) = some (entries.map (·.2)) := by
  refine mapM_field?_eq_some (by simp) fun entry hentry ↦ h.field?_eq_some hnodup ?_
  simpa [List.zip_map'] using hentry

theorem FieldsOf.isReadable (h : FieldsOf entries fields)
    (hentries : ∀ entry ∈ entries, entry.2.isReadable) : (object fields).isReadable := by
  obtain ⟨others, hperm, hothers⟩ := h
  refine isReadable_object.mpr fun field hfield ↦ ?_
  rcases List.mem_append.mp (hperm.mem_iff.mp hfield) with hentry | hother
  · exact hentries field hentry
  · exact (hothers field hother).2

end FieldsOf

/-! ## Damage -/

/-- One of the fields with some names has been taken out, or put in once more. -/
inductive Damage (names : List String) : List (String × α) → List (String × α) → Prop where
  | removed {name : String} (hname : name ∈ names) (value : α)
      (before after : List (String × α)) :
      Damage names (before ++ (name, value) :: after) (before ++ after)
  | repeated {name : String} (hname : name ∈ names) (value : α)
      (before after : List (String × α)) :
      Damage names (before ++ after) (before ++ (name, value) :: after)

/-- The field that has been damaged is not found, and nothing else has changed. -/
theorem Damage.exists_field?_eq_none {names : List String} (h : Damage names fields fields')
    (hfields : ∀ name ∈ names, (field? fields name).isSome) :
    ∃ name ∈ names, field? fields' name = none ∧
      ∀ other, other ≠ name → field? fields' other = field? fields other := by
  cases h with
  | @removed name hname value before after =>
      refine ⟨name, hname, ?_, fun other hother ↦ by simp [field?, Ne.symm hother]⟩
      have hone := isSome_field?_iff.mp (hfields name hname)
      rw [← Option.not_isSome_iff_eq_none, isSome_field?_iff]
      simp at hone ⊢
      omega
  | @repeated name hname value before after =>
      refine ⟨name, hname, ?_, fun other hother ↦ by simp [field?, Ne.symm hother]⟩
      have hone := isSome_field?_iff.mp (hfields name hname)
      rw [← Option.not_isSome_iff_eq_none, isSome_field?_iff]
      simp at hone ⊢
      omega

end VectorQuery.Json
