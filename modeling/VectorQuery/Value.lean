import VectorQuery.Vector

/-!
# Values

What an expression evaluates to, and what a name can stand for: a number or an
instant vector.
-/

namespace VectorQuery

inductive Value where
  | scalar (x : Float)
  | vector (v : InstantVector)
deriving DecidableEq

/-- The name of the shape of a value. -/
def Value.typeName : Value → String
  | .scalar _ => "scalar"
  | .vector _ => "vector"

end VectorQuery
