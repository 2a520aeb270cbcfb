import VectorQuery.Json.Basic
import VectorQuery.Json.Token

/-!
# Reading JSON text

The tokens of a text are read one after the other by a machine that keeps the
arrays and objects it is in the midst of.  What is inside more than 127 of these,
or is an object with a field whose name cannot be read, becomes unreadable.
-/

namespace VectorQuery.Json

/-- The fields of an object in reverse order, unless one has a name that cannot
be read. -/
abbrev Fields := Option (List (String × Json))

/-- An array or an object part way through, with what it has so far in reverse
order; of an object, also the name whose value comes next, if it can be read. -/
inductive Frame where
  | array (items : List Json)
  | object (fields : Fields) (name : Option String)

/-- What has to follow the tokens read so far. -/
inductive ReadState where
  /-- A value, or the end of the innermost array if it is still empty. -/
  | value (stack : List Frame) (mayClose : Bool)
  /-- The name of a field, or the end of the object if it is still empty. -/
  | name (fields : Fields) (stack : List Frame) (mayClose : Bool)
  /-- A colon behind the name of a field. -/
  | colon (fields : Fields) (name : Option String) (stack : List Frame)
  /-- What goes on or ends the innermost frame, a value being complete. -/
  | complete (value : Json) (stack : List Frame)

namespace ReadState

/-- How many arrays and objects a value may be inside of, itself included. -/
def maxDepth : Nat := 127

/-- The state before the first token. -/
def start : ReadState := .value [] false

/-- The fields of an object with one more. -/
def addField (fields : Fields) (name : Option String) (value : Json) : Fields := do
  return (← name, value) :: (← fields)

/-- An array or an object inside of the frames of a stack. -/
def nested (stack : List Frame) (value : Json) : Json :=
  if stack.length < maxDepth then value else .unreadable

/-- The array of some items in reverse order. -/
def closeArray (items : List Json) (stack : List Frame) : ReadState :=
  .complete (nested stack (.array items.reverse)) stack

/-- The object of some fields in reverse order. -/
def closeObject (fields : Fields) (stack : List Frame) : ReadState :=
  match fields with
  | some fields => .complete (nested stack (.object fields.reverse)) stack
  | none => .complete .unreadable stack

/-- The state after the first token of a value. -/
def beginValue (stack : List Frame) : Token → Option ReadState
  | .null => some (.complete .null stack)
  | .bool b => some (.complete (.bool b) stack)
  | .integer n => some (.complete (.integer n) stack)
  | .number x => some (.complete (.number x) stack)
  | .string s => some (.complete (.string s) stack)
  | .unreadableNumber | .unreadableString => some (.complete .unreadable stack)
  | .openArray => some (.value (.array [] :: stack) true)
  | .openObject => some (.name (some []) stack true)
  | _ => none

/-- The state after a token behind a complete value. -/
def afterValue (j : Json) : List Frame → Token → Option ReadState
  | .array items :: stack, .comma => some (.value (.array (j :: items) :: stack) false)
  | .array items :: stack, .closeArray => some (closeArray (j :: items) stack)
  | .object fields s :: stack, .comma => some (.name (addField fields s j) stack false)
  | .object fields s :: stack, .closeObject =>
      some (closeObject (addField fields s j) stack)
  | _, _ => none

/-- The state after one more token, if the token can stand there. -/
def step : ReadState → Token → Option ReadState
  | .value (.array [] :: stack) true, .closeArray => some (closeArray [] stack)
  | .value stack _, token => beginValue stack token
  | .name _ stack true, .closeObject => some (closeObject (some []) stack)
  | .name fields stack _, .string s => some (.colon fields (some s) stack)
  | .name fields stack _, .unreadableString => some (.colon fields none stack)
  | .name .., _ => none
  | .colon fields s stack, .colon => some (.value (.object fields s :: stack) false)
  | .colon .., _ => none
  | .complete j stack, token => afterValue j stack token

/-- The value that has been read, if nothing has to follow. -/
def result? : ReadState → Option Json
  | .complete j [] => some j
  | _ => none

end ReadState

/-- The value that a list of tokens is. -/
def ofTokens? (tokens : List Token) : Option Json := do
  (← tokens.foldlM ReadState.step .start).result?

/-- The value that a text is. -/
def read? (text : String) : Option Json := do
  ofTokens? (← Token.lex? text.toList)

end VectorQuery.Json
