import VectorQuery.Json.Basic
import VectorQuery.Label.Set

/-!
# Label sets in JSON

A label set is an object with a string for each label, in the order of the
names.  Where a name is repeated, its last value counts.
-/

namespace VectorQuery.LabelSet

def toJson (s : LabelSet) : Json :=
  .object (s.pairs.map fun (name, value) ↦ (name, .string value))

def ofJson? (j : Json) : Option LabelSet := do
  let pairs ← (← j.object?).mapM fun (name, value) ↦ (name, ·) <$> value.string?
  return ofPairs pairs

end VectorQuery.LabelSet
