import VectorQuery.Eval

/-!
# Rules of the operators

For each operator, a relation between the operands that it accepts and the value
that it then has, with one rule for each shape of the operands.  An evaluation
succeeds exactly as the rules say, so that a property of what operators yield is
shown rule by rule.
-/

namespace VectorQuery

section Except

variable {ε α β : Type}

theorem bind_eq_ok {x : Except ε α} {f : α → Except ε β} {b : β} :
    x >>= f = .ok b ↔ ∃ a, x = .ok a ∧ f a = .ok b := by
  cases x <;> simp [bind, Except.bind]

theorem check_bind_eq_ok {x : Except ε Unit} {f : Unit → Except ε β} {b : β} :
    x >>= f = .ok b ↔ x = .ok () ∧ f () = .ok b := by
  cases x <;> simp [bind, Except.bind]

theorem map_eq_ok {x : Except ε α} {f : α → β} {b : β} :
    f <$> x = .ok b ↔ ∃ a, x = .ok a ∧ f a = b := by
  cases x <;> simp [Functor.map, Except.map]

end Except

/-- Two vectors are joined if the modifiers of both are read and no labels are
repeated. -/
theorem InstantVector.joinOperands_eq_ok {v w : InstantVector} {m n : Modifiers}
    {read : List Keyword} {combine : Combine} {value : Value} :
    v.joinOperands m w n read combine = .ok value ↔
      m.ensureRead [] = .ok () ∧ n.ensureRead read = .ok () ∧
        ∃ joined, v.join w n.joinSpec combine = .ok joined ∧ value = .vector joined := by
  rw [joinOperands, check_bind_eq_ok, check_bind_eq_ok]
  cases v.join w n.joinSpec combine <;> simp [eq_comm]

/-! ## Arithmetic -/

namespace ArithmeticOp

inductive Yields (op : ArithmeticOp) (rejectNonFinite : Bool) :
    Operand → Operand → Value → Prop where
  | scalars {x y : Float} (h : rejectNonFinite → (op.apply x y).isFinite) :
      Yields op rejectNonFinite (.scalar x) (.scalar y) (.scalar (op.apply x y))
  | vectors {v w joined : InstantVector} {m n : Modifiers} (hm : m.ensureRead [] = .ok ())
      (hn : n.ensureRead Keyword.matching = .ok ())
      (h : v.join w n.joinSpec (fun x y ↦ some (op.apply x y)) = .ok joined) :
      Yields op rejectNonFinite (.vector v m) (.vector w n) (.vector joined)
  | vectorScalar {v : InstantVector} {m : Modifiers} {y : Float}
      (hm : m.ensureRead [] = .ok ()) :
      Yields op rejectNonFinite (.vector v m) (.scalar y)
        (.vector (v.mapValues (op.apply · y)))
  | scalarVector {x : Float} {w : InstantVector} {n : Modifiers}
      (hn : n.ensureRead [] = .ok ()) :
      Yields op rejectNonFinite (.scalar x) (.vector w n)
        (.vector (w.mapValues (op.apply x ·)))

theorem evaluate_eq_ok_iff {op : ArithmeticOp} {rejectNonFinite : Bool} {l r : Operand}
    {value : Value} :
    op.evaluate rejectNonFinite l r = .ok value ↔ op.Yields rejectNonFinite l r value := by
  constructor
  · intro h
    cases l with
    | scalar x =>
        cases r with
        | scalar y =>
            simp only [evaluate] at h
            split at h
            · cases h
            · rename_i hfinite
              cases h
              exact .scalars (by simpa using hfinite)
        | vector w n =>
            obtain ⟨hn, h⟩ := check_bind_eq_ok.mp h
            cases h
            exact .scalarVector hn
    | vector v m =>
        cases r with
        | scalar y =>
            obtain ⟨hm, h⟩ := check_bind_eq_ok.mp h
            cases h
            exact .vectorScalar hm
        | vector w n =>
            obtain ⟨hm, hn, joined, hjoin, rfl⟩ := InstantVector.joinOperands_eq_ok.mp h
            exact .vectors hm hn hjoin
  · rintro (h | ⟨hm, hn, h⟩ | hm | hn)
    · rw [evaluate, if_neg (by simpa using h)]
    · exact InstantVector.joinOperands_eq_ok.mpr ⟨hm, hn, _, h, rfl⟩
    · exact check_bind_eq_ok.mpr ⟨hm, rfl⟩
    · exact check_bind_eq_ok.mpr ⟨hn, rfl⟩

end ArithmeticOp

/-! ## Comparison -/

namespace ComparisonOp

inductive Yields (op : ComparisonOp) : Operand → Operand → Value → Prop where
  | scalars {x y : Float} :
      Yields op (.scalar x) (.scalar y) (.scalar (indicator (op.compare x y)))
  | vectors {v w joined : InstantVector} {m n : Modifiers} (hm : m.ensureRead [] = .ok ())
      (hn : n.ensureRead (Keyword.matching ++ [.returnBool]) = .ok ())
      (h : v.join w n.joinSpec (fun x y ↦ if op.compare x y then some x else none) =
        .ok joined) :
      Yields op (.vector v m) (.vector w n) (.vector joined)
  | vectorScalar {v : InstantVector} {m : Modifiers} {y : Float}
      (hm : m.ensureRead [.returnBool] = .ok ()) :
      Yields op (.vector v m) (.scalar y)
        (.vector (v.filterMapValues fun x ↦ verdict m.returnBool (op.compare x y) x))
  | scalarVector {x : Float} {w : InstantVector} {n : Modifiers}
      (hn : n.ensureRead [.returnBool] = .ok ()) :
      Yields op (.scalar x) (.vector w n)
        (.vector (w.filterMapValues fun y ↦ verdict n.returnBool (op.compare x y) y))

theorem evaluate_eq_ok_iff {op : ComparisonOp} {l r : Operand} {value : Value} :
    op.evaluate l r = .ok value ↔ op.Yields l r value := by
  constructor
  · intro h
    cases l with
    | scalar x =>
        cases r with
        | scalar y =>
            cases h
            exact .scalars
        | vector w n =>
            obtain ⟨hn, h⟩ := check_bind_eq_ok.mp h
            cases h
            exact .scalarVector hn
    | vector v m =>
        cases r with
        | scalar y =>
            obtain ⟨hm, h⟩ := check_bind_eq_ok.mp h
            cases h
            exact .vectorScalar hm
        | vector w n =>
            obtain ⟨hm, hn, joined, hjoin, rfl⟩ := InstantVector.joinOperands_eq_ok.mp h
            exact .vectors hm hn hjoin
  · rintro (_ | ⟨hm, hn, h⟩ | hm | hn)
    · rfl
    · exact InstantVector.joinOperands_eq_ok.mpr ⟨hm, hn, _, h, rfl⟩
    · exact check_bind_eq_ok.mpr ⟨hm, rfl⟩
    · exact check_bind_eq_ok.mpr ⟨hn, rfl⟩

end ComparisonOp

/-! ## Operators on vectors only -/

inductive SetOp.Yields (op : SetOp) : Operand → Operand → Value → Prop where
  | vectors {v w : InstantVector} {m n : Modifiers} (hm : m.ensureRead [] = .ok ())
      (hn : n.ensureRead [] = .ok ()) :
      Yields op (.vector v m) (.vector w n) (.vector (op.apply v w))

theorem SetOp.evaluate_eq_ok_iff {op : SetOp} {l r : Operand} {value : Value} :
    op.evaluate l r = .ok value ↔ op.Yields l r value := by
  constructor
  · intro h
    cases l with
    | scalar x => cases h
    | vector v m =>
        cases r with
        | scalar y => cases h
        | vector w n =>
            obtain ⟨hm, h⟩ := check_bind_eq_ok.mp h
            obtain ⟨hn, h⟩ := check_bind_eq_ok.mp h
            cases h
            exact .vectors hm hn
  · rintro ⟨hm, hn⟩
    exact check_bind_eq_ok.mpr ⟨hm, check_bind_eq_ok.mpr ⟨hn, rfl⟩⟩

inductive AggregationOp.Yields (op : AggregationOp) : Operand → Value → Prop where
  | vector {v : InstantVector} {m : Modifiers}
      (hm : m.ensureRead Keyword.grouping = .ok ()) :
      Yields op (.vector v m) (v.aggregate m.grouping op.reduce)

theorem AggregationOp.evaluate_eq_ok_iff {op : AggregationOp} {arg : Operand}
    {value : Value} : op.evaluate arg = .ok value ↔ op.Yields arg value := by
  constructor
  · intro h
    cases arg with
    | scalar x => cases h
    | vector v m =>
        obtain ⟨hm, h⟩ := check_bind_eq_ok.mp h
        cases h
        exact .vector hm
  · rintro ⟨hm⟩
    exact check_bind_eq_ok.mpr ⟨hm, rfl⟩

inductive Operand.YieldsAbsent : Operand → Value → Prop where
  | vector {v : InstantVector} {m : Modifiers} (hm : m.ensureRead [] = .ok ()) :
      YieldsAbsent (.vector v m) (.vector v.absent)

theorem Operand.absent_eq_ok_iff {arg : Operand} {value : Value} :
    arg.absent = .ok value ↔ arg.YieldsAbsent value := by
  constructor
  · intro h
    cases arg with
    | scalar x => cases h
    | vector v m =>
        obtain ⟨hm, h⟩ := check_bind_eq_ok.mp h
        cases h
        exact .vector hm
  · rintro ⟨hm⟩
    exact check_bind_eq_ok.mpr ⟨hm, rfl⟩

end VectorQuery
