import Std.Data.TreeMap
import VectorQuery.Label.Filter
import VectorQuery.Text.Sized

/-!
# Signatures

The signature of a label set is a text that stands for the labels a filter
keeps: each name and each value in turn, in the order of the names, as sized
text.  Since sized texts can be told apart, different labels have different
signatures, whatever characters they are made of.
-/

namespace VectorQuery

/-- A text that stands for some of the labels of a label set. -/
structure Signature where
  text : String
deriving DecidableEq

namespace Signature

/-- The text that stands for a list of labels. -/
def ofPairs (pairs : List (String × String)) : Signature :=
  ⟨String.join (pairs.map fun (name, value) ↦ Text.sized name ++ Text.sized value)⟩

instance : Ord Signature := ⟨compareOn text⟩

instance : Std.TransOrd Signature := inferInstanceAs (Std.TransCmp (compareOn text))

instance : Std.LawfulEqOrd Signature where
  eq_of_compare {s t} h := by
    have h : s.text = t.text := Std.LawfulEqOrd.eq_of_compare h
    cases s
    cases t
    rw [mk.injEq]
    exact h

end Signature

/-- The signature of the labels that `f` keeps. -/
def LabelSet.signature (s : LabelSet) (f : LabelFilter) : Signature :=
  .ofPairs (s.project f).pairs

end VectorQuery
