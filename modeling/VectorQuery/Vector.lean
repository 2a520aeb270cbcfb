import VectorQuery.Instant
import VectorQuery.Label.Signature

/-!
# Instant vectors

Labelled samples that share one timestamp.  Samples stay in the order in which
they were given, and nothing keeps two of them from having the same labels.
-/

namespace VectorQuery

/-- A number with the labels of the series it belongs to. -/
structure Sample where
  labels : LabelSet
  value : Float
deriving DecidableEq

namespace Sample

/-- The sample with only those of its labels that `f` keeps. -/
def project (s : Sample) (f : LabelFilter) : Sample :=
  ⟨s.labels.project f, s.value⟩

def signature (s : Sample) (f : LabelFilter) : Signature :=
  s.labels.signature f

/-- Whether two samples have the same labels and numbers that compare as
equal. -/
def agrees (s t : Sample) : Bool :=
  s.labels = t.labels && s.value == t.value

end Sample

/-- Samples taken at one point in time. -/
structure InstantVector where
  time : Instant
  samples : List Sample
deriving DecidableEq

namespace InstantVector

/-- The vector without samples. -/
def empty (time : Instant) : InstantVector := ⟨time, []⟩

/-- The vector with a sample for each row of labels and value. -/
def ofRows (time : Instant) (rows : List (List (String × String) × Float)) : InstantVector :=
  ⟨time, rows.map fun (labels, value) ↦ ⟨.ofPairs labels, value⟩⟩

def size (v : InstantVector) : Nat := v.samples.length

def isEmpty (v : InstantVector) : Bool := v.samples.isEmpty

/-- The numbers of the samples, in order. -/
def values (v : InstantVector) : List Float := v.samples.map (·.value)

/-- The label sets of the samples, in order. -/
def labelSets (v : InstantVector) : List LabelSet := v.samples.map (·.labels)

/-- The vector with one more sample at its end. -/
def push (v : InstantVector) (s : Sample) : InstantVector :=
  ⟨v.time, v.samples ++ [s]⟩

/-- The vector with `f` applied to its numbers; the samples for which there is
no result are left out. -/
def filterMapValues (v : InstantVector) (f : Float → Option Float) : InstantVector :=
  ⟨v.time, v.samples.filterMap fun s ↦ (f s.value).map (⟨s.labels, ·⟩)⟩

/-- The vector with `f` applied to its numbers. -/
def mapValues (v : InstantVector) (f : Float → Float) : InstantVector :=
  ⟨v.time, v.samples.map fun s ↦ ⟨s.labels, f s.value⟩⟩

/-- The vector with only those labels that `f` keeps on each sample. -/
def project (v : InstantVector) (f : LabelFilter) : InstantVector :=
  ⟨v.time, v.samples.map (·.project f)⟩

/-- Whether two vectors have the same time and agree sample by sample. -/
def agrees (v w : InstantVector) : Bool :=
  v.time = w.time && v.size == w.size &&
    (v.samples.zip w.samples).all fun (s, t) ↦ s.agrees t

end InstantVector

end VectorQuery
