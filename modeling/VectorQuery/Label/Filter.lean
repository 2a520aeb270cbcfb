import VectorQuery.Label.Set

/-!
# Label filters

Which labels take part when label sets are compared or grouped: the listed ones
only, or all but the listed ones.
-/

namespace VectorQuery

/-- With `on`, the listed labels are kept; without it, the others are. -/
structure LabelFilter where
  labels : List String
  on : Bool
deriving DecidableEq, Repr

namespace LabelFilter

/-- The filter that keeps every label. -/
def all : LabelFilter := ⟨[], false⟩

/-- Whether the filter keeps every label. -/
def isNoop (f : LabelFilter) : Bool := !f.on && f.labels.isEmpty

/-- Whether the filter keeps the label `name`. -/
def keeps (f : LabelFilter) (name : String) : Bool :=
  f.labels.contains name == f.on

@[simp] theorem keeps_all (name : String) : all.keeps name = true := rfl

/-- A filter that keeps every label says so of each name. -/
theorem keeps_of_isNoop {f : LabelFilter} (h : f.isNoop = true) (name : String) :
    f.keeps name = true := by
  obtain ⟨labels, on⟩ := f
  simp_all [isNoop, keeps]

end LabelFilter

namespace LabelSet

/-- The stored pairs that a filter keeps.  They are not looked at if it keeps every
label. -/
def keepStored (f : LabelFilter) (stored : List (String × String)) : List (String × String) :=
  if f.isNoop then stored else stored.filter (f.keeps ·.1)

theorem keepStored_sorted (f : LabelFilter) {stored : List (String × String)}
    (h : stored.Pairwise (·.1 < ·.1)) : (keepStored f stored).Pairwise (·.1 < ·.1) := by
  rw [keepStored]
  split
  · exact h
  · exact h.filter _

/-- The labels that a filter keeps. -/
def project (s : LabelSet) (f : LabelFilter) : LabelSet :=
  ⟨keepStored f s.pairs, keepStored_sorted f s.sorted⟩

end LabelSet

end VectorQuery
