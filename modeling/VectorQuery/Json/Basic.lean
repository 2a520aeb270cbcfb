/-!
# JSON values

The values of the interchange format.  An object is the list of its fields in
the order of the text, with names repeated as they are there: what a repetition
means is up to the reader of each type.

A text can have parts with the form of a value that cannot be taken for one: a
number out of range, a string with half of a surrogate pair, an object with a
field of such a name, or what is nested too deeply.  These become
`Json.unreadable`, which does no harm as long as nobody looks at it.
-/

namespace VectorQuery

inductive Json where
  | null
  | bool (b : Bool)
  /-- A whole number of 64 bits, written as digits only. -/
  | integer (n : Int)
  | number (x : Float)
  | string (s : String)
  | array (items : List Json)
  | object (fields : List (String × Json))
  | unreadable
deriving Inhabited

namespace Json

/-- A number, if it is finite; there is no other way to write NaN and the
infinities than `null`. -/
def ofFloat (x : Float) : Json := if x.isFinite then .number x else .null

def integer? : Json → Option Int
  | .integer n => some n
  | _ => none

/-- The number that either kind of number is. -/
def number? : Json → Option Float
  | .integer n => some (Float.ofInt n)
  | .number x => some x
  | _ => none

def bool? : Json → Option Bool
  | .bool b => some b
  | _ => none

def string? : Json → Option String
  | .string s => some s
  | _ => none

def array? : Json → Option (List Json)
  | .array items => some items
  | _ => none

def object? : Json → Option (List (String × Json))
  | .object fields => some fields
  | _ => none

/-! ## Values that can be read throughout -/

mutual

/-- Whether all parts of a value can be read. -/
def isReadable : Json → Bool
  | .array items => areReadable items
  | .object fields => fieldsAreReadable fields
  | .unreadable => false
  | _ => true

/-- Whether all parts of some values can be read. -/
def areReadable : List Json → Bool
  | [] => true
  | item :: items => item.isReadable && areReadable items

/-- Whether all parts of the values of some fields can be read. -/
def fieldsAreReadable : List (String × Json) → Bool
  | [] => true
  | (_, value) :: fields => value.isReadable && fieldsAreReadable fields

end

/-! ## Records -/

/-- The value of the field `name`, which has to occur exactly once. -/
def field? (fields : List (String × α)) (name : String) : Option α :=
  match fields.filter (·.1 = name) with
  | [(_, value)] => some value
  | _ => none

/-- The values of the fields of a record, in the order of `names`.  A record is
an object in which each of them occurs exactly once, whatever else there is, or
the array of their values. -/
def record? (names : List String) : Json → Option (List Json)
  | .object fields => names.mapM (field? fields)
  | .array items => if items.length = names.length then some items else none
  | _ => none

/-- Whether the field `first` stands before the field `second`. -/
def precedes (fields : List (String × Json)) (first second : String) : Bool :=
  (fields.map (·.1)).find? (fun name ↦ name = first || name = second) = some first

/-! ## Alternatives -/

/-- The name of an alternative without content: a string, or an object with a
value under that name that stands for no content. -/
def unitNameWith? (isUnit : Json → Bool) : Json → Option String
  | .string name => some name
  | .object [(name, value)] => if isUnit value then some name else none
  | _ => none

def isNull : Json → Bool
  | .null => true
  | _ => false

def isNullOrEmpty : Json → Bool
  | .null => true
  | .object [] => true
  | _ => false

/-- The name of an alternative, no content being `null`. -/
def unitName? : Json → Option String := unitNameWith? isNull

end Json

end VectorQuery
