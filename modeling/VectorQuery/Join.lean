import Std.Data.TreeMap
import Std.Data.TreeSet
import VectorQuery.Modifiers
import VectorQuery.Vector

/-!
# Joining two vectors

A join pairs the samples of two vectors that have the same labels, as far as a
filter keeps them, and combines the numbers of each pair.  Of one side, a
sample must be identified by its kept labels; its samples are indexed first.
The other side, of which there may be many samples for one of the first, is
then walked in order, and the result follows that order.
-/

namespace VectorQuery

/-- Where labels that should identify a sample have been found twice. -/
inductive MatchSide where
  | left
  | right
  | result
deriving DecidableEq, Repr

def MatchSide.name : MatchSide → String
  | .left => "left"
  | .right => "right"
  | .result => "result"

/-- The failure of a join: two samples of one side have the same labels. -/
structure DuplicateLabels where
  labels : LabelSet
  side : MatchSide
deriving DecidableEq

/-- What a join makes of the numbers of a pair, the left one first; without a
result, the pair is dropped. -/
abbrev Combine := Float → Float → Option Float

/-- What a join did: the pairs of numbers it combined, in order, and what came
of them. -/
structure JoinRun where
  calls : List (Float × Float)
  outcome : Except DuplicateLabels InstantVector

namespace Join

/-- Samples by the signature of their kept labels. -/
abbrev Index := Std.TreeMap Signature Sample

/-- The index with further samples.  It fails on the first sample that has the
signature of an earlier one, with its kept labels. -/
def extend (f : LabelFilter) : Index → List Sample → Except LabelSet Index
  | index, [] => .ok index
  | index, s :: samples =>
      if index.contains (s.signature f) then .error (s.labels.project f)
      else extend f (index.insert (s.signature f) s) samples

/-- The numbers of a pair, that of the left operand first. -/
def operands (m : Matching) (sample other : Sample) : Float × Float :=
  match m.cardinality with
  | .oneToMany => (other.value, sample.value)
  | _ => (sample.value, other.value)

/-- The labels of what a pair yields: the kept ones if both samples are unique,
else those of the walked side with what it takes over from the other. -/
def resultLabels (m : Matching) (sample other : Sample) : LabelSet :=
  match m.cardinality with
  | .oneToOne => sample.labels.project m.filter
  | _ => sample.labels.withIncluded other.labels m.included

/-- The number of what a pair yields: with `bool`, whether it was kept. -/
def resultValue (spec : JoinSpec) (combined : Option Float) : Option Float :=
  if spec.returnBool then some (if combined.isSome then 1.0 else 0.0)
  else combined

/-- The index after a sample has been matched: where both sides are unique, it
is not matched again. -/
def consume (m : Matching) (index : Index) (key : Signature) : Index :=
  match m.cardinality with
  | .oneToOne => index.erase key
  | _ => index

/-- Walks samples against an index, with the signatures of the results so far.
It fails on the first result that has the labels of an earlier one. -/
def walk (spec : JoinSpec) (combine : Combine) :
    Index → Std.TreeSet Signature → List Sample →
      List (Float × Float) × Except LabelSet (List Sample)
  | _, _, [] => ([], .ok [])
  | index, emitted, sample :: samples =>
      let key := sample.signature spec.matching.filter
      match index[key]? with
      | none => walk spec combine index emitted samples
      | some other =>
          let index := consume spec.matching index key
          let call := operands spec.matching sample other
          match resultValue spec (combine call.1 call.2) with
          | none =>
              let rest := walk spec combine index emitted samples
              (call :: rest.1, rest.2)
          | some value =>
              let labels := resultLabels spec.matching sample other
              let signature := labels.signature .all
              if emitted.contains signature then ([call], .error labels)
              else
                let rest := walk spec combine index (emitted.insert signature) samples
                (call :: rest.1, rest.2.map (⟨labels, value⟩ :: ·))

/-- Joins the walked side with the side to index. -/
def run (spec : JoinSpec) (combine : Combine) (side : MatchSide) (time : Instant)
    (many one : List Sample) : JoinRun :=
  match extend spec.matching.filter ∅ one with
  | .error labels => ⟨[], .error ⟨labels, side⟩⟩
  | .ok index =>
      let walked := walk spec combine index ∅ many
      ⟨walked.1,
        match walked.2 with
        | .error labels => .error ⟨labels, .result⟩
        | .ok samples => .ok ⟨time, samples⟩⟩

end Join

namespace InstantVector

/-- The run of the join of two vectors.  Unless there may be many samples on
the right, the right side is indexed and the left one walked; the result has
the time of the right operand. -/
def joinRun (left right : InstantVector) (spec : JoinSpec) (combine : Combine) : JoinRun :=
  match spec.matching.cardinality with
  | .oneToMany => Join.run spec combine .left right.time right.samples left.samples
  | _ => Join.run spec combine .right right.time left.samples right.samples

/-- The join of two vectors. -/
def join (left right : InstantVector) (spec : JoinSpec) (combine : Combine) :
    Except DuplicateLabels InstantVector :=
  (left.joinRun right spec combine).outcome

end InstantVector

end VectorQuery
