import VectorQuery.Operator.Operand

/-!
# Set operators

Intersection, union and difference of two vectors, whose samples are told apart
by all of their labels.  The result has the time of the left vector.
-/

namespace VectorQuery.SetOp

/-- The signatures of the samples of a vector. -/
def signatures (v : InstantVector) : Std.TreeSet Signature :=
  v.samples.foldl (fun found s ↦ found.insert (s.signature .all)) ∅

/-- The samples whose labels have not been seen, each label set once. -/
def firsts : Std.TreeSet Signature → List Sample → List Sample
  | _, [] => []
  | seen, s :: samples =>
      let signature := s.signature .all
      if seen.contains signature then firsts seen samples
      else s :: firsts (seen.insert signature) samples

/-- The operation on vectors. -/
def apply : SetOp → InstantVector → InstantVector → InstantVector
  | .and, v, w =>
      let found := signatures w
      ⟨v.time, v.samples.filter fun s ↦ found.contains (s.signature .all)⟩
  | .unless, v, w =>
      let found := signatures w
      ⟨v.time, v.samples.filter fun s ↦ !found.contains (s.signature .all)⟩
  | .or, v, w => ⟨v.time, firsts ∅ (v.samples ++ w.samples)⟩

/-- The operation on operands, which have to be vectors without modifiers. -/
def evaluate (op : SetOp) : Operand → Operand → Except EvalError Value
  | .vector v m, .vector w n => do
      m.ensureRead []
      n.ensureRead []
      return .vector (op.apply v w)
  | _, _ => .error (.operandType (.set op))

end VectorQuery.SetOp
