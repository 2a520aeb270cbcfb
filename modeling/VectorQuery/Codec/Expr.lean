import VectorQuery.Codec.Operator
import VectorQuery.Expr

/-!
# Expressions in JSON

A node of an expression tree is an object that names its kind in the field
`type` and has a field for each part, or the array of these in order.  Other
fields are of no account, except that all of the tree has to be readable; with a
field that is missing or repeated it is no expression.

The nodes inside of another one may also give the number of their kind instead
of its name, and in the whole of a tree an empty object will do for the `null`
beside the name of an operator.

To read a node, every value in it is first read as an expression of its own, if
it is one.  The node then takes from each field what it needs: the expression,
or the value as it is.
-/

namespace VectorQuery.Expr

/-- The kinds of nodes. -/
inductive Kind where
  | number
  | var
  | arithmetic
  | comparison
  | set
  | aggregation
  | absent
  | modifier
deriving DecidableEq, Repr

namespace Kind

def name : Kind → String
  | .number => "number"
  | .var => "variable"
  | .arithmetic => "arithmetic"
  | .comparison => "comparison"
  | .set => "set"
  | .aggregation => "aggregation"
  | .absent => "absent"
  | .modifier => "modifier"

def ofName? : String → Option Kind
  | "number" => some .number
  | "variable" => some .var
  | "arithmetic" => some .arithmetic
  | "comparison" => some .comparison
  | "set" => some .set
  | "aggregation" => some .aggregation
  | "absent" => some .absent
  | "modifier" => some .modifier
  | _ => none

/-- The kinds in the order of their numbers, from 0 on. -/
def all : List Kind :=
  [.number, .var, .arithmetic, .comparison, .set, .aggregation, .absent, .modifier]

/-- The kind that a value names or gives the number of. -/
def ofJson? : Json → Option Kind
  | .string name => ofName? name
  | .integer n => if 0 ≤ n then all[n.toNat]? else none
  | _ => none

/-- The fields of a node beside its type. -/
def fields : Kind → List String
  | .number => ["value"]
  | .var => ["name"]
  | .arithmetic | .comparison | .set => ["op", "lhs", "rhs"]
  | .aggregation => ["op", "arg"]
  | .absent => ["arg"]
  | .modifier => ["modifier", "expr"]

end Kind

/-- An expression as a node of its kind. -/
def toJson : Expr → Json
  | .number value => .object [("type", .string "number"), ("value", .ofFloat value)]
  | .var name => .object [("type", .string "variable"), ("name", .string name)]
  | .arithmetic op lhs rhs =>
      .object
        [("type", .string "arithmetic"), ("op", op.toJson), ("lhs", lhs.toJson),
         ("rhs", rhs.toJson)]
  | .comparison op lhs rhs =>
      .object
        [("type", .string "comparison"), ("op", op.toJson), ("lhs", lhs.toJson),
         ("rhs", rhs.toJson)]
  | .set op lhs rhs =>
      .object
        [("type", .string "set"), ("op", op.toJson), ("lhs", lhs.toJson),
         ("rhs", rhs.toJson)]
  | .aggregation op arg =>
      .object [("type", .string "aggregation"), ("op", op.toJson), ("arg", arg.toJson)]
  | .absent arg => .object [("type", .string "absent"), ("arg", arg.toJson)]
  | .modifier m arg =>
      .object [("type", .string "modifier"), ("modifier", m.toJson), ("expr", arg.toJson)]

/-- The value of a field, and the expression that it is, if it is one. -/
structure Part where
  json : Json
  expr? : Option Expr

/-- The name of an operator in a tree. -/
def opName? (j : Json) : Option String := j.unitNameWith? Json.isNullOrEmpty

/-- The expression that a kind and the parts of its fields make up. -/
def ofParts? : Kind → List Part → Option Expr
  | .number, [value] => .number <$> value.json.number?
  | .var, [name] => .var <$> name.json.string?
  | .arithmetic, [op, lhs, rhs] => do
      let op ← ArithmeticOp.ofName? (← opName? op.json)
      return .arithmetic op (← lhs.expr?) (← rhs.expr?)
  | .comparison, [op, lhs, rhs] => do
      let op ← ComparisonOp.ofName? (← opName? op.json)
      return .comparison op (← lhs.expr?) (← rhs.expr?)
  | .set, [op, lhs, rhs] => do
      let op ← SetOp.ofName? (← opName? op.json)
      return .set op (← lhs.expr?) (← rhs.expr?)
  | .aggregation, [op, arg] => do
      let op ← AggregationOp.ofName? (← opName? op.json)
      return .aggregation op (← arg.expr?)
  | .absent, [arg] => .absent <$> arg.expr?
  | .modifier, [m, arg] => do
      return .modifier (← Modifier.ofJsonWith? opName? m.json) (← arg.expr?)
  | _, _ => none

/-- The expression that the fields of an object make up. -/
def ofFields? (fields : List (String × Part)) : Option Expr := do
  let kind ← Kind.ofJson? (← Json.field? fields "type").json
  ofParts? kind (← kind.fields.mapM (Json.field? fields))

/-- The expression that the items of an array make up. -/
def ofItems? : List Part → Option Expr
  | [] => none
  | type :: parts => do ofParts? (← Kind.ofJson? type.json) parts

mutual

/-- The expression that a value is inside of a tree. -/
def ofNested? : Json → Option Expr
  | .object fields => ofFields? (partsOfFields fields)
  | .array items => ofItems? (partsOfItems items)
  | _ => none

/-- The parts of an object, by name. -/
def partsOfFields : List (String × Json) → List (String × Part)
  | [] => []
  | (name, j) :: fields => (name, ⟨j, ofNested? j⟩) :: partsOfFields fields

/-- The parts of an array. -/
def partsOfItems : List Json → List Part
  | [] => []
  | j :: items => ⟨j, ofNested? j⟩ :: partsOfItems items

end

/-- Whether the outermost node of a tree has the name of its kind. -/
def namesKind : Json → Bool
  | .object fields => ((Json.field? fields "type").bind Json.string?).isSome
  | .array (.string _ :: _) => true
  | _ => false

/-- The expression that a value is. -/
def ofJson? (j : Json) : Option Expr :=
  if namesKind j && j.isReadable then ofNested? j else none

end VectorQuery.Expr
