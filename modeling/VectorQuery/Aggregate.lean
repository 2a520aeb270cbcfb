import Std.Data.TreeMap
import VectorQuery.Modifiers
import VectorQuery.Value

/-!
# Aggregating a vector

An aggregation gathers the samples of a vector into groups of those that have
the same labels, as far as the grouping keeps them, and reduces the numbers of
each group to one.  Groups come in the order in which they first appear, and
the numbers of a group in the order of the samples.

While samples are gathered, the place of each group is kept by the signature of
its labels, so that no other group has to be looked at for the next sample.
-/

namespace VectorQuery

/-- Labels, and the numbers of the samples that have them. -/
structure Group where
  labels : LabelSet
  values : List Float
deriving DecidableEq

namespace Group

/-- The group with one more number at its end. -/
def add (g : Group) (value : Float) : Group := ⟨g.labels, g.values ++ [value]⟩

/-- Reduces groups one after the other, each to a sample; with the lists of
numbers that have been reduced. -/
def reduceAll (reduce : List Float → Float) : List Group → List (List Float) × List Sample
  | [] => ([], [])
  | g :: groups =>
      let rest := reduceAll reduce groups
      (g.values :: rest.1, ⟨g.labels, reduce g.values⟩ :: rest.2)

end Group

/-- What an aggregation did: the lists of numbers it reduced, in order, and what
came of them. -/
structure AggregateRun where
  calls : List (List Float)
  outcome : Value

/-- The groups of the samples so far, and the place of each among them. -/
structure Gathering where
  groups : Array Group := #[]
  places : Std.TreeMap Signature Nat := ∅

/-- The gathering with one more number: in the group of its labels, or in a new
group at the end. -/
def Gathering.add (g : Gathering) (labels : LabelSet) (value : Float) : Gathering :=
  let signature := labels.signature .all
  match g.places[signature]? with
  | some place => { g with groups := g.groups.modify place (·.add value) }
  | none =>
      { groups := g.groups.push ⟨labels, [value]⟩
        places := g.places.insert signature g.groups.size }

namespace InstantVector

/-- The samples gathered by those of their labels that `f` keeps. -/
def gather (v : InstantVector) (f : LabelFilter) : Gathering :=
  v.samples.foldl (fun g s ↦ g.add (s.labels.project f) s.value) {}

/-- The groups of the samples by those of their labels that `f` keeps. -/
def groups (v : InstantVector) (f : LabelFilter) : List Group :=
  (v.gather f).groups.toList

/-- The run of the aggregation of a vector.  It reduces the numbers of each
group, or all of them to a scalar if there is nothing to group by. -/
def aggregateRun (v : InstantVector) (g : Grouping) (reduce : List Float → Float) :
    AggregateRun :=
  if g.isUngrouped then ⟨[v.values], .scalar (reduce v.values)⟩
  else
    let reduced := Group.reduceAll reduce (v.groups g.filter)
    ⟨reduced.1, .vector ⟨v.time, reduced.2⟩⟩

/-- The aggregation of a vector. -/
def aggregate (v : InstantVector) (g : Grouping) (reduce : List Float → Float) : Value :=
  (v.aggregateRun g reduce).outcome

end InstantVector

end VectorQuery
