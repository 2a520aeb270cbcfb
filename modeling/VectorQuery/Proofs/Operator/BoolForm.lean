import VectorQuery.Operator.Comparison
import VectorQuery.Proofs.Join.BoolForm

/-!
# Comparisons with `bool`

A comparison of vectors is a filter, and with `bool` it says for each position what
the filter does there.  The two forms are compared here, for two vectors and for a
vector and a scalar: what they return, and how they fail.
-/

namespace VectorQuery

namespace Modifiers

/-- Where `bool` is read, it makes no difference to what else is not. -/
theorem ensureRead_apply_returnBool (m : Modifiers) {read : List Keyword}
    (h : .returnBool ∈ read) : (m.apply .returnBool).ensureRead read = m.ensureRead read := by
  have hbool (on : Bool) :
      (if on then [Keyword.returnBool] else []).find? (!read.contains ·) = none := by
    cases on <;> simp [h]
  have hfind : (m.apply .returnBool).keywords.find? (!read.contains ·) =
      m.keywords.find? (!read.contains ·) := by
    simp only [keywords, List.find?_append, hbool]
    rfl
  rw [ensureRead, ensureRead, hfind]

end Modifiers

/-! ## Positions -/

/-- The numbers that are compared for a sample of the result, its labels, and the
number that it keeps if the comparison is a filter. -/
structure Compared where
  labels : LabelSet
  left : Float
  right : Float
  kept : Float

namespace ComparisonOp

/-- What is compared for operands: the numbers of each matched pair, or the scalar
with each number of the vector. -/
def compared : Operand → Operand → List Compared
  | .vector v _, .vector w n =>
      (NestedLoop.pairs n.joinSpec v w).map fun p ↦
        ⟨p.labels n.joinSpec, (p.call n.joinSpec).1, (p.call n.joinSpec).2,
          (p.call n.joinSpec).1⟩
  | .vector v _, .scalar y => v.samples.map fun s ↦ ⟨s.labels, s.value, y, s.value⟩
  | .scalar x, .vector w _ => w.samples.map fun s ↦ ⟨s.labels, x, s.value, s.value⟩
  | .scalar _, .scalar _ => []

/-- The modifiers that a comparison reads: those of the right one of two vectors,
or of the only vector. -/
def governing? : Operand → Operand → Option Modifiers
  | _, .vector _ n => some n
  | .vector _ m, .scalar _ => some m
  | .scalar _, .scalar _ => none

/-- The comparison of operands with `bool` on the vector whose modifiers are read. -/
def evaluateBool (op : ComparisonOp) : Operand → Operand → Except EvalError Value
  | l, .vector w n => op.evaluate l (.vector w (n.apply .returnBool))
  | .vector v m, r => op.evaluate (.vector v (m.apply .returnBool)) r
  | l, r => op.evaluate l r

/-- Two vectors are joined, and there may be many samples of one of them for a
sample of the other. -/
def JoinsMany : Operand → Operand → Prop
  | .vector _ _, .vector _ n =>
      n.matching.cardinality = .manyToOne ∨ n.matching.cardinality = .oneToMany
  | _, _ => False

/-- The sample that says whether a comparison holds. -/
def answer (op : ComparisonOp) (c : Compared) : Sample :=
  ⟨c.labels, indicator (op.compare c.left c.right)⟩

/-- The samples at the positions of a 1, with other numbers in its place. -/
def passed (answers : List Sample) (numbers : List Float) : List Sample :=
  ((answers.zip numbers).filter (·.1.value = 1.0)).map fun p ↦ ⟨p.1.labels, p.2⟩

variable {op : ComparisonOp}

theorem indicator_eq (holds : Bool) : indicator holds = 1.0 ∨ indicator holds = 0.0 := by
  cases holds
  · exact .inr rfl
  · exact .inl rfl

theorem indicator_eq_one_iff {holds : Bool} : indicator holds = 1.0 ↔ holds = true := by
  cases holds <;> decide

/-- What a filter keeps, found by the answers. -/
theorem passed_answers (op : ComparisonOp) (cs : List Compared) :
    passed (cs.map op.answer) (cs.map (·.kept)) =
      cs.filterMap fun c ↦
        if op.compare c.left c.right then some ⟨c.labels, c.kept⟩ else none := by
  have hholds (c : Compared) :
      decide ((op.answer c).value = 1.0) = op.compare c.left c.right :=
    Bool.eq_iff_iff.mpr (decide_eq_true_iff.trans indicator_eq_one_iff)
  rw [passed, List.zip_map', List.filter_map, List.map_map]
  simp only [Function.comp_def, hholds]
  induction cs with
  | nil => rfl
  | cons c cs ih =>
      rw [List.filter_cons, List.filterMap_cons, ← ih]
      split <;> rfl

/-! ## The two outcomes -/

end ComparisonOp

/-- Labels are repeated among the results of a join. -/
def EvalError.OnResult (e : EvalError) : Prop :=
  ∃ labels, e = .duplicateLabelSet ⟨labels, .result⟩

theorem Modifiers.not_onResult_of_ensureRead {m : Modifiers} {read : List Keyword}
    {e : EvalError} (h : m.ensureRead read = .error e) : ¬ e.OnResult := by
  rw [ensureRead] at h
  split at h
  · cases h
    exact fun ⟨_, h⟩ ↦ nomatch h
  · cases h

theorem NestedLoop.not_onResult_oneSideName (spec : JoinSpec) (labels : LabelSet) :
    ¬ (EvalError.duplicateLabelSet ⟨labels, oneSideName spec⟩).OnResult := by
  rintro ⟨_, h⟩
  simp [oneSideName_ne_result] at h

namespace ComparisonOp

/-- The outcomes of a filter and of its form with `bool`.  If there may be `many`
samples for one, the second can fail for its results where the first does not. -/
inductive Agrees (op : ComparisonOp) (cs : List Compared) (many : Prop) :
    Except EvalError Value → Except EvalError Value → Prop where
  | ok (time : Instant) :
      Agrees op cs many
        (.ok (.vector ⟨time, passed (cs.map op.answer) (cs.map (·.kept))⟩))
        (.ok (.vector ⟨time, cs.map op.answer⟩))
  | error {e : EvalError} (he : ¬ e.OnResult) : Agrees op cs many (.error e) (.error e)
  | results {e e' : EvalError} (he : e.OnResult) (he' : e'.OnResult) :
      Agrees op cs many (.error e) (.error e')
  | boolResults (value : Value) {e : EvalError} (he : e.OnResult) (h : many) :
      Agrees op cs many (.ok value) (.error e)

theorem Agrees.check {cs : List Compared} {many : Prop} (m : Modifiers)
    (read : List Keyword) {f g : Unit → Except EvalError Value}
    (h : Agrees op cs many (f ()) (g ())) :
    Agrees op cs many (m.ensureRead read >>= f) (m.ensureRead read >>= g) := by
  cases hread : m.ensureRead read with
  | ok => exact h
  | error e => exact .error (Modifiers.not_onResult_of_ensureRead hread)

/-- A vector keeps its numbers where the comparison holds, and with `bool` has the
answers for all. -/
theorem agrees_filterMapValues (op : ComparisonOp) (v : InstantVector) (many : Prop)
    (holds : Float → Bool) (position : Sample → Compared)
    (hlabels : ∀ s, (position s).labels = s.labels) (hkept : ∀ s, (position s).kept = s.value)
    (hholds : ∀ s, op.compare (position s).left (position s).right = holds s.value) :
    Agrees op (v.samples.map position) many
      (.ok (.vector (v.filterMapValues fun x ↦ verdict false (holds x) x)))
      (.ok (.vector (v.filterMapValues fun x ↦ verdict true (holds x) x))) := by
  have hfilter : (v.filterMapValues fun x ↦ verdict false (holds x) x) =
      ⟨v.time, passed ((v.samples.map position).map op.answer)
        ((v.samples.map position).map (·.kept))⟩ := by
    rw [passed_answers, List.filterMap_map, InstantVector.filterMapValues]
    congr 2
    funext s
    rw [Function.comp_apply, hlabels, hkept, hholds, verdict]
    cases holds s.value <;> rfl
  have hanswers : (v.filterMapValues fun x ↦ verdict true (holds x) x) =
      ⟨v.time, (v.samples.map position).map op.answer⟩ := by
    simp [InstantVector.filterMapValues, verdict, answer, hlabels, hholds, Function.comp_def]
  rw [hfilter, hanswers]
  exact .ok v.time

theorem results_eq_passed (op : ComparisonOp) (v w : InstantVector) (m : Modifiers)
    {n : Modifiers} (hbool : n.returnBool = false) :
    NestedLoop.results n.joinSpec (fun x y ↦ if op.compare x y then some x else none)
        (NestedLoop.pairs n.joinSpec v w) =
      passed ((compared (.vector v m) (.vector w n)).map op.answer)
        ((compared (.vector v m) (.vector w n)).map (·.kept)) := by
  rw [passed_answers, compared, List.filterMap_map, NestedLoop.results]
  congr 1
  funext p
  rw [NestedLoop.Pair.result?, NestedLoop.value?_of_returnBool_eq_false hbool]
  dsimp only [Function.comp_apply]
  split <;> rfl

theorem map_verdict_eq_answers (op : ComparisonOp) (v w : InstantVector) (m n : Modifiers) :
    (NestedLoop.pairs n.joinSpec v w).map
        (·.verdict n.joinSpec fun x y ↦ if op.compare x y then some x else none) =
      (compared (.vector v m) (.vector w n)).map op.answer := by
  rw [compared, List.map_map]
  refine List.map_congr_left fun p _ ↦ ?_
  rw [NestedLoop.Pair.verdict, Function.comp_apply, answer, indicator]
  split <;> simp_all

/-- Two vectors are joined in the same way, with `bool` or without. -/
theorem evaluate_vectors_agrees (op : ComparisonOp) (v w : InstantVector) (m : Modifiers)
    {n : Modifiers} (hbool : n.returnBool = false) :
    Agrees op (compared (.vector v m) (.vector w n)) (JoinsMany (.vector v m) (.vector w n))
      (op.evaluate (.vector v m) (.vector w n))
      (op.evaluateBool (.vector v m) (.vector w n)) := by
  have hread : Keyword.returnBool ∈ Keyword.matching ++ [.returnBool] := by decide
  have hspec : (n.apply .returnBool).joinSpec = n.joinSpec.withBool := rfl
  rw [evaluateBool, evaluate, evaluate, InstantVector.joinOperands, InstantVector.joinOperands,
    n.ensureRead_apply_returnBool hread, hspec]
  refine .check m _ (.check n _ ?_)
  rcases NestedLoop.outcome_withBool_cases v w n.joinSpec
      (fun x y ↦ if op.compare x y then some x else none) with
    ⟨labels, hB, hR⟩ | ⟨hB, hR⟩ | ⟨labels, hB, ⟨⟨joined, hR⟩, hcard⟩ | ⟨labels', hR⟩⟩
  · rw [hB, hR]
    exact .error (NestedLoop.not_onResult_oneSideName n.joinSpec labels)
  · rw [hB, hR, results_eq_passed op v w m hbool, map_verdict_eq_answers op v w m]
    exact .ok w.time
  · have hmany : n.matching.cardinality = .manyToOne ∨ n.matching.cardinality = .oneToMany := by
      cases h : n.matching.cardinality with
      | oneToOne => exact absurd h hcard
      | manyToOne => exact .inl rfl
      | oneToMany => exact .inr rfl
    rw [hB, hR]
    exact .boolResults (.vector joined) ⟨labels, rfl⟩ hmany
  · rw [hB, hR]
    exact .results ⟨labels', rfl⟩ ⟨labels, rfl⟩

/-- With a scalar, a vector is gone through sample by sample. -/
theorem evaluate_agrees (op : ComparisonOp) {l r : Operand} {m : Modifiers}
    (hm : governing? l r = some m) (hbool : m.returnBool = false) :
    Agrees op (compared l r) (JoinsMany l r) (op.evaluate l r) (op.evaluateBool l r) := by
  have hread : Keyword.returnBool ∈ [Keyword.returnBool] := by decide
  have happly : (m.apply .returnBool).returnBool = true := rfl
  cases l with
  | scalar x =>
      cases r with
      | scalar y => cases hm
      | vector w n =>
          cases hm
          rw [evaluateBool, evaluate, evaluate, m.ensureRead_apply_returnBool hread, happly,
            hbool]
          refine .check m _ ?_
          exact op.agrees_filterMapValues w _ (op.compare x ·) _ (fun _ ↦ rfl) (fun _ ↦ rfl)
            fun _ ↦ rfl
  | vector v m' =>
      cases r with
      | scalar y =>
          cases hm
          rw [evaluateBool, evaluate, evaluate, m.ensureRead_apply_returnBool hread, happly,
            hbool]
          · refine .check m _ ?_
            exact op.agrees_filterMapValues v _ (op.compare · y) _ (fun _ ↦ rfl) (fun _ ↦ rfl)
              fun _ ↦ rfl
          · nofun
      | vector w n =>
          cases hm
          exact op.evaluate_vectors_agrees v w m' hbool

/-- A comparison with a vector and its form with `bool`, on the vector whose
modifiers are read.  If the second succeeds, so does the first, with the samples at
the positions of a 1, each with the left number of a matched pair or the number of
the vector; the other numbers of the second are 0.  If the first fails, so does the
second, with the same error, or with both for labels repeated in the result.  Only
the second fails for this reason if a join of many samples with one has labels
repeated among pairs that are not all kept. -/
theorem evaluate_filter_and_bool (op : ComparisonOp) {l r : Operand} {m : Modifiers}
    (hm : governing? l r = some m) (hbool : m.returnBool = false) :
    (∀ b, op.evaluateBool l r = .ok b → ∃ time,
      b = .vector ⟨time, (compared l r).map op.answer⟩ ∧
      op.evaluate l r = .ok (.vector
        ⟨time, passed ((compared l r).map op.answer) ((compared l r).map (·.kept))⟩) ∧
      ∀ s ∈ (compared l r).map op.answer, s.value = 1.0 ∨ s.value = 0.0) ∧
    (∀ e, op.evaluate l r = .error e →
      (¬ e.OnResult → op.evaluateBool l r = .error e) ∧
      (e.OnResult → ∃ e', op.evaluateBool l r = .error e' ∧ e'.OnResult)) ∧
    ∀ a e, op.evaluate l r = .ok a → op.evaluateBool l r = .error e →
      e.OnResult ∧ JoinsMany l r := by
  have h := op.evaluate_agrees hm hbool
  generalize op.evaluate l r = filtered at h ⊢
  generalize op.evaluateBool l r = answered at h ⊢
  cases h with
  | ok time =>
      refine ⟨fun b hb ↦ ?_, nofun, nofun⟩
      cases hb
      refine ⟨time, rfl, rfl, fun s hs ↦ ?_⟩
      obtain ⟨c, -, rfl⟩ := List.mem_map.mp hs
      exact indicator_eq (op.compare c.left c.right)
  | error he =>
      refine ⟨nofun, fun e h ↦ ?_, nofun⟩
      cases h
      exact ⟨fun _ ↦ rfl, fun h ↦ absurd h he⟩
  | results he he' =>
      refine ⟨nofun, fun e h ↦ ?_, nofun⟩
      cases h
      exact ⟨fun h ↦ absurd he h, fun _ ↦ ⟨_, rfl, he'⟩⟩
  | boolResults value he hmany =>
      refine ⟨nofun, nofun, fun a e _ h ↦ ?_⟩
      cases h
      exact ⟨he, hmany⟩

/-- The number above which the processors of a host are busy. -/
def limits : InstantVector :=
  .ofRows (.ofUnixSeconds 7) [([("host", "h1"), ("cpu", "all")], 2)]

/-- The limits, joined by host with many processors that take over some labels. -/
def limitsByHost (included : List String) : Operand :=
  .vector limits (.ofChain [.on ["host"], .groupLeft included])

/-- One of two processors is above the limit.  If both take over the label of the
limit, only the filter can tell them apart. -/
theorem evaluate_filter_and_bool_limits :
    governing? (.vector NestedLoop.processors {}) (limitsByHost []) =
      some (.ofChain [.on ["host"], .groupLeft []]) ∧
    (Modifiers.ofChain [.on ["host"], .groupLeft []]).returnBool = false ∧
    evaluateBool .larger (.vector NestedLoop.processors {}) (limitsByHost []) =
      .ok (.vector (.ofRows (.ofUnixSeconds 7)
        [([("host", "h1"), ("cpu", "0")], 0), ([("host", "h1"), ("cpu", "1")], 1)])) ∧
    evaluate .larger (.vector NestedLoop.processors {}) (limitsByHost []) =
      .ok (.vector (.ofRows (.ofUnixSeconds 7) [([("host", "h1"), ("cpu", "1")], 4)])) ∧
    evaluate .larger (.vector NestedLoop.processors {}) (limitsByHost ["cpu"]) =
      .ok (.vector (.ofRows (.ofUnixSeconds 7) [([("host", "h1"), ("cpu", "all")], 4)])) ∧
    evaluateBool .larger (.vector NestedLoop.processors {}) (limitsByHost ["cpu"]) =
      .error (.duplicateLabelSet
        ⟨.ofPairs [("cpu", "all"), ("host", "h1")], .result⟩) ∧
    JoinsMany (.vector NestedLoop.processors {}) (limitsByHost ["cpu"]) := by
  have hbool : evaluateBool .larger (.vector NestedLoop.processors {}) (limitsByHost []) =
      .ok (.vector (.ofRows (.ofUnixSeconds 7)
        [([("host", "h1"), ("cpu", "0")], 0), ([("host", "h1"), ("cpu", "1")], 1)])) := by
    decide +kernel
  have hwide : evaluate .larger (.vector NestedLoop.processors {}) (limitsByHost ["cpu"]) =
      .ok (.vector (.ofRows (.ofUnixSeconds 7)
        [([("host", "h1"), ("cpu", "all")], 4)])) := by
    decide +kernel
  have hwideBool :
      evaluateBool .larger (.vector NestedLoop.processors {}) (limitsByHost ["cpu"]) =
        .error (.duplicateLabelSet
          ⟨.ofPairs [("cpu", "all"), ("host", "h1")], .result⟩) := by
    decide +kernel
  obtain ⟨time, htime, hfilter, -⟩ :=
    (evaluate_filter_and_bool .larger (l := .vector NestedLoop.processors {})
      (r := limitsByHost []) rfl rfl).1 _ hbool
  have hmany := (evaluate_filter_and_bool .larger (l := .vector NestedLoop.processors {})
    (r := limitsByHost ["cpu"]) rfl rfl).2.2 _ _ hwide hwideBool
  obtain rfl : Instant.ofUnixSeconds 7 = time :=
    congrArg InstantVector.time (Value.vector.inj htime)
  refine ⟨rfl, rfl, hbool, ?_, hwide, hwideBool, hmany.2⟩
  rw [hfilter]
  decide +kernel

end ComparisonOp

end VectorQuery
