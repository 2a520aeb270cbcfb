import VectorQuery.Codec.Label
import VectorQuery.Scope

/-!
# Vectors, values and scopes in JSON

The time of a vector is a binary64 number of milliseconds since 1970.  A value
names its type beside its content; a scope is an object with a value for each
name.

Fields of other names are not looked at.  But where the content of a value
stands before its type, it has to be taken in before it is known what it is, and
so has to be readable throughout.
-/

namespace VectorQuery

namespace Sample

def toJson (s : Sample) : Json :=
  .object [("labels", s.labels.toJson), ("value", .ofFloat s.value)]

def ofJson? (j : Json) : Option Sample := do
  match ← j.record? ["labels", "value"] with
  | [labels, value] => return ⟨← LabelSet.ofJson? labels, ← value.number?⟩
  | _ => none

end Sample

namespace InstantVector

def toJson (v : InstantVector) : Json :=
  .object
    [("time", .ofFloat v.time.toUnixMilliseconds),
     ("samples", .array (v.samples.map Sample.toJson))]

def ofJson? (j : Json) : Option InstantVector := do
  match ← j.record? ["time", "samples"] with
  | [time, samples] =>
      let time := Instant.ofUnixMillisecondsFloat (← time.number?)
      return ⟨time, ← (← samples.array?).mapM Sample.ofJson?⟩
  | _ => none

end InstantVector

namespace Value

def toJson : Value → Json
  | .scalar x => .object [("type", .string "scalar"), ("value", .ofFloat x)]
  | .vector v => .object [("type", .string "vector"), ("value", v.toJson)]

/-- The value whose type has a name. -/
def ofContent? (type : String) (content : Json) : Option Value :=
  match type with
  | "scalar" => .scalar <$> content.number?
  | "vector" => .vector <$> InstantVector.ofJson? content
  | _ => none

def ofJson? : Json → Option Value
  | .object fields => do
      let type ← (← Json.field? fields "type").unitName?
      let content ← Json.field? fields "value"
      if Json.precedes fields "value" "type" && !content.isReadable then none
      else ofContent? type content
  | .array [.string type, content] => ofContent? type content
  | _ => none

end Value

namespace Scope

def toJson (scope : Scope) : Json :=
  .object (scope.toList.map fun (name, value) ↦ (name, value.toJson))

def ofJson? (j : Json) : Option Scope := do
  let bindings ← (← j.object?).mapM fun (name, value) ↦ (name, ·) <$> Value.ofJson? value
  return ofBindings bindings

end Scope

end VectorQuery
