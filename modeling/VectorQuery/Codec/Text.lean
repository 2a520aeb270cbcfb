import VectorQuery.Codec.Expr
import VectorQuery.Codec.Value
import VectorQuery.Json.Reader
import VectorQuery.Json.Writer

/-!
# Texts

What a text is read as, and the text that is written in a style.
-/

namespace VectorQuery

/-- The label set that a text is. -/
def LabelSet.ofJsonText? (text : String) : Option LabelSet := do
  ofJson? (← Json.read? text)

/-- The text of a label set. -/
def LabelSet.toJsonText (style : Json.Style) (s : LabelSet) : String := s.toJson.render style

/-- The vector that a text is. -/
def InstantVector.ofJsonText? (text : String) : Option InstantVector := do
  ofJson? (← Json.read? text)

/-- The text of a vector. -/
def InstantVector.toJsonText (style : Json.Style) (v : InstantVector) : String :=
  v.toJson.render style

/-- The value that a text is. -/
def Value.ofJsonText? (text : String) : Option Value := do
  ofJson? (← Json.read? text)

/-- The text of a value. -/
def Value.toJsonText (style : Json.Style) (v : Value) : String := v.toJson.render style

/-- The scope that a text is. -/
def Scope.ofJsonText? (text : String) : Option Scope := do
  ofJson? (← Json.read? text)

/-- The text of a scope. -/
def Scope.toJsonText (style : Json.Style) (scope : Scope) : String := scope.toJson.render style

/-- The expression that a text is. -/
def Expr.ofJsonText? (text : String) : Option Expr := do
  ofJson? (← Json.read? text)

end VectorQuery
