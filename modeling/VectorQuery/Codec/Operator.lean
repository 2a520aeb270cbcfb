import VectorQuery.Json.Basic
import VectorQuery.Modifiers
import VectorQuery.Operator.Basic

/-!
# Operators and modifiers in JSON

An operator is a string.  Some operators have a second name, which is read but
never written.  A modifier is an object with a list of label names under its
keyword; `bool`, which has no list, is a string.
-/

namespace VectorQuery

namespace ArithmeticOp

/-- The name in JSON. -/
def jsonName : ArithmeticOp → String
  | .add => "add"
  | .subtract => "subtract"
  | .multiply => "multiply"
  | .divide => "divide"
  | .modulo => "modulo"
  | .power => "power"

def ofName? : String → Option ArithmeticOp
  | "add" => some .add
  | "subtract" => some .subtract
  | "multiply" => some .multiply
  | "divide" => some .divide
  | "modulo" | "mod" => some .modulo
  | "power" | "pow" => some .power
  | _ => none

def toJson (op : ArithmeticOp) : Json := .string op.jsonName

def ofJson? (j : Json) : Option ArithmeticOp := do ofName? (← j.unitName?)

end ArithmeticOp

namespace ComparisonOp

/-- The name in JSON. -/
def jsonName : ComparisonOp → String
  | .smaller => "smaller"
  | .smallerEq => "smaller_eq"
  | .larger => "larger"
  | .largerEq => "larger_eq"
  | .equal => "equal"
  | .unequal => "unequal"

def ofName? : String → Option ComparisonOp
  | "smaller" => some .smaller
  | "smaller_eq" | "smallerEq" => some .smallerEq
  | "larger" => some .larger
  | "larger_eq" | "largerEq" => some .largerEq
  | "equal" => some .equal
  | "unequal" => some .unequal
  | _ => none

def toJson (op : ComparisonOp) : Json := .string op.jsonName

def ofJson? (j : Json) : Option ComparisonOp := do ofName? (← j.unitName?)

end ComparisonOp

namespace SetOp

def ofName? : String → Option SetOp
  | "and" => some .and
  | "or" => some .or
  | "unless" | "not" => some .unless
  | _ => none

def toJson (op : SetOp) : Json := .string op.name

def ofJson? (j : Json) : Option SetOp := do ofName? (← j.unitName?)

end SetOp

namespace AggregationOp

def ofName? : String → Option AggregationOp
  | "avg" => some .avg
  | "sum" => some .sum
  | "max" => some .max
  | "min" => some .min
  | "count" => some .count
  | _ => none

def toJson (op : AggregationOp) : Json := .string op.name

def ofJson? (j : Json) : Option AggregationOp := do ofName? (← j.unitName?)

end AggregationOp

namespace Modifier

/-- The list of label names of a modifier, if it has one. -/
def labels? : Modifier → Option (List String)
  | .on labels | .ignoring labels | .byLabels labels | .withoutLabels labels
  | .groupLeft labels | .groupRight labels => some labels
  | .returnBool => none

/-- The modifier with a list of label names that a keyword names. -/
def ofLabels? (keyword : String) (labels : List String) : Option Modifier :=
  match keyword with
  | "on" => some (.on labels)
  | "ignoring" => some (.ignoring labels)
  | "by" => some (.byLabels labels)
  | "without" => some (.withoutLabels labels)
  | "group_left" => some (.groupLeft labels)
  | "group_right" => some (.groupRight labels)
  | _ => none

def toJson (m : Modifier) : Json :=
  match m.labels? with
  | some labels => .object [(m.keyword.text, .array (labels.map .string))]
  | none => .string m.keyword.text

/-- The modifier that a value is, `bool` being written as a name without
content. -/
def ofJsonWith? (unitName? : Json → Option String) : Json → Option Modifier
  | .object [(keyword, .array items)] => do
      ofLabels? keyword (← items.mapM Json.string?)
  | j => if unitName? j = some "bool" then some .returnBool else none

def ofJson? (j : Json) : Option Modifier := ofJsonWith? Json.unitName? j

end Modifier

end VectorQuery
