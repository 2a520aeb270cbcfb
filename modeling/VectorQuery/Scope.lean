import Std.Data.TreeMap
import VectorQuery.Value

/-!
# Scopes

The values that an expression can refer to by name.
-/

namespace VectorQuery

/-- Values by name. -/
abbrev Scope := Std.TreeMap String Value

/-- The scope of any bindings; of several values for a name the last one
counts. -/
def Scope.ofBindings (bindings : List (String × Value)) : Scope :=
  bindings.foldl (fun scope b ↦ scope.insert b.1 b.2) ∅

end VectorQuery
