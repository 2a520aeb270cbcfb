import Mathlib
import VectorQuery.Codec.Text
import VectorQuery.Proofs.Json.StringObject
import VectorQuery.Proofs.Label.Set
import VectorQuery.Proofs.Text.ByteOrder

/-!
# Label sets in JSON text

A text is a label set exactly if it is an object with strings for its values, in any order
and with names repeated.  The label set has the last value of each name, and its own text
has each name once, in the order of their bytes.
-/

namespace VectorQuery.LabelSet

/-! ## Reading -/

theorem mapM_string?_stringFields (fields : List (String × String)) :
    (Json.stringFields fields).mapM (fun (name, value) ↦ (name, ·) <$> value.string?) =
      some fields := by
  refine Json.mapM_map_eq_some ?_ fields
  exact fun _ ↦ rfl

theorem eq_stringFields_of_mapM_string? {fields : List (String × Json)}
    {pairs : List (String × String)}
    (h : fields.mapM (fun (name, value) ↦ (name, ·) <$> value.string?) = some pairs) :
    fields = Json.stringFields pairs := by
  induction fields generalizing pairs with
  | nil =>
      obtain rfl := Option.some.inj h
      rfl
  | cons field fields ih =>
      obtain ⟨name, value⟩ := field
      simp only [List.mapM_cons, Option.bind_eq_bind, Option.bind_eq_some_iff] at h
      obtain ⟨pair, hpair, pairs, hpairs, hcons⟩ := h
      obtain rfl := Option.some.inj hcons
      obtain ⟨text, hvalue, rfl⟩ := Option.map_eq_some_iff.mp hpair
      obtain rfl : value = .string text := by
        cases value <;> simp_all [Json.string?]
      rw [ih hpairs]
      rfl

theorem ofJson?_stringFields (fields : List (String × String)) :
    ofJson? (.object (Json.stringFields fields)) = some (ofPairs fields) := by
  rw [ofJson?, Json.object?, Option.bind_eq_bind, Option.bind_some, mapM_string?_stringFields]
  rfl

theorem exists_stringFields_of_ofJson? {j : Json} {s : LabelSet} (h : ofJson? j = some s) :
    ∃ fields, j = .object (Json.stringFields fields) := by
  simp only [ofJson?, Option.bind_eq_bind, Option.bind_eq_some_iff] at h
  obtain ⟨fields, hobject, pairs, hpairs, -⟩ := h
  obtain rfl : j = .object fields := by
    cases j <;> simp_all [Json.object?]
  exact ⟨pairs, congrArg Json.object (eq_stringFields_of_mapM_string? hpairs)⟩

theorem ofJsonText?_of_isObjectText {fields : List (String × String)} {text : String}
    (h : Json.IsObjectText fields text) : ofJsonText? text = some (ofPairs fields) := by
  rw [ofJsonText?, Json.read?_eq_some_iff.mpr h]
  exact ofJson?_stringFields fields

theorem exists_isObjectText_of_ofJsonText? {text : String} {s : LabelSet}
    (h : ofJsonText? text = some s) : ∃ fields, Json.IsObjectText fields text := by
  rw [ofJsonText?, Option.bind_eq_bind, Option.bind_eq_some_iff] at h
  obtain ⟨j, hread, hj⟩ := h
  obtain ⟨fields, rfl⟩ := exists_stringFields_of_ofJson? hj
  exact ⟨fields, Json.read?_eq_some_iff.mp hread⟩

/-! ## Writing -/

theorem isObjectText_toJsonText (style : Json.Style) (s : LabelSet) :
    Json.IsObjectText s.pairs (s.toJsonText style) :=
  Json.isObjectText_render style s.pairs

theorem pairs_bytes_lt (s : LabelSet) :
    s.pairs.Pairwise (Text.bytes ·.1 < Text.bytes ·.1) :=
  s.sorted.imp Text.lt_iff_bytes_lt.mp

/-- The text of a label set in either style is read as this label set.  A text is read as
one exactly if it is an object of strings; what is read has the last value of each name, and
is written with each name once, in the order of their bytes. -/
theorem ofJsonText?_toJsonText_and_last_values :
    (∀ style (s : LabelSet), ofJsonText? (s.toJsonText style) = some s) ∧
    (∀ text, (ofJsonText? text).isSome ↔ ∃ fields, Json.IsObjectText fields text) ∧
    ∀ fields text, Json.IsObjectText fields text →
      ∃ s, ofJsonText? text = some s ∧
        (∀ name value, s.get? name = some value ↔ IsLastValue fields name value) ∧
        ∀ style, ∃ written, Json.IsObjectText written (s.toJsonText style) ∧
          written.Pairwise (Text.bytes ·.1 < Text.bytes ·.1) ∧
          ∀ name value, (name, value) ∈ written ↔ IsLastValue fields name value := by
  refine ⟨fun style s ↦ ?_, fun text ↦ ?_, fun fields text h ↦ ?_⟩
  · rw [ofJsonText?_of_isObjectText (isObjectText_toJsonText style s), ofPairs_pairs]
  · rw [Option.isSome_iff_exists]
    constructor
    · rintro ⟨s, hs⟩
      exact exists_isObjectText_of_ofJsonText? hs
    · rintro ⟨fields, h⟩
      exact ⟨_, ofJsonText?_of_isObjectText h⟩
  · refine ⟨_, ofJsonText?_of_isObjectText h, get?_ofPairs_eq_some_iff, fun style ↦ ?_⟩
    refine ⟨_, isObjectText_toJsonText style _, pairs_bytes_lt _, fun name value ↦ ?_⟩
    rw [← get?_eq_some_iff, get?_ofPairs_eq_some_iff]

/-- Fields of which the last one repeats the first name. -/
def repeatedHost : List (String × String) :=
  [("host", "h1"), ("dc", "\"o\\slo\x01😀"), ("host", "h2")]

/-- A text of these fields, with each kind of escape. -/
def repeatedHostText : String :=
  "\x7b\"host\" : \"h1\",\n \"dc\":\"\\\"o\\\\slo\\u0001\\ud83d\\uDE00\", \"host\": \"h2\" \x7d"

theorem ofJsonText?_repeatedHost :
    Json.IsObjectText repeatedHost repeatedHostText ∧
      ∃ s, ofJsonText? repeatedHostText = some s ∧ s.get? "host" = some "h2" := by
  have htext : Json.IsObjectText repeatedHost repeatedHostText := by
    rw [← Json.read?_eq_some_iff]
    cbv
  obtain ⟨s, hs, hget, -⟩ := ofJsonText?_toJsonText_and_last_values.2.2 _ _ htext
  have hlast : IsLastValue repeatedHost "host" "h2" :=
    ⟨repeatedHost.take 2, [], rfl, fun _ hfield ↦ absurd hfield List.not_mem_nil⟩
  exact ⟨htext, s, hs, (hget _ _).mpr hlast⟩

end VectorQuery.LabelSet
