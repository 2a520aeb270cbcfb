import VectorQuery.Proofs.Eval.Distinct
import VectorQuery.Proofs.Operator.Errors

/-!
# The order of evaluation

No operator decides early: what it has is evaluated whole, from left to right, before it is
applied.  An unbound variable ends the evaluation where it is come to, and no operator fails
for one.  So it shows how far an evaluation has got: an unbound variable is reported exactly
if all that stands to the left of it evaluates.
-/

namespace VectorQuery.Expr

/-! ## Places -/

/-- The operands of a node, from left to right. -/
def operands : Expr → List Expr
  | .number _ | .var _ => []
  | .arithmetic _ lhs rhs | .comparison _ lhs rhs | .set _ lhs rhs => [lhs, rhs]
  | .aggregation _ arg | .absent arg | .modifier _ arg => [arg]

/-- The part of an expression at a place, which says for each node on the way down to it
which operand to go on with. -/
def part? : Expr → List Nat → Option Expr
  | e, [] => some e
  | e, i :: place => e.operands[i]?.bind (·.part? place)

/-- A place lies entirely to the left of another one: the ways to them part at some node. -/
inductive LeftOf : List Nat → List Nat → Prop where
  | parting {i j : Nat} (h : i < j) (left right : List Nat) : LeftOf (i :: left) (j :: right)
  | inside (i : Nat) {left right : List Nat} (h : LeftOf left right) :
      LeftOf (i :: left) (i :: right)

/-- A variable occurs at a place, and elsewhere only to the right of it. -/
structure FirstAt (e : Expr) (name : String) (place : List Nat) : Prop where
  occurs : e.part? place = some (.var name)
  first (other : List Nat) (h : e.part? other = some (.var name)) :
    other = place ∨ LeftOf place other

variable {options : EvalOptions} {scope : Scope} {e d : Expr} {name : String}
  {place : List Nat}

/-- What holds of a node if it holds of all its operands holds of every expression. -/
@[elab_as_elim]
theorem operandsInduction {motive : Expr → Prop}
    (node : ∀ e, (∀ d ∈ e.operands, motive d) → motive e) (e : Expr) : motive e := by
  induction e with
  | number | var => exact node _ nofun
  | arithmetic _ _ _ ihl ihr | comparison _ _ _ ihl ihr | set _ _ _ ihl ihr =>
      exact node _ (List.forall_mem_cons.mpr ⟨ihl, List.forall_mem_singleton.mpr ihr⟩)
  | aggregation _ _ ih | absent _ ih | modifier _ _ ih =>
      exact node _ (List.forall_mem_singleton.mpr ih)

theorem part?_cons_eq_some {i : Nat} :
    e.part? (i :: place) = some d ↔
      ∃ c, e.operands[i]? = some c ∧ c.part? place = some d := by
  rw [part?, Option.bind_eq_some_iff]

/-- Nothing is below a node without operands, so that of two such nodes one stands to the
left of the other. -/
theorem eq_or_leftOf {c : Expr} {other : List Nat} (hd : e.part? place = some d)
    (hc : e.part? other = some c) (hleaf : d.operands = []) (hleaf' : c.operands = []) :
    place = other ∨ LeftOf place other ∨ LeftOf other place := by
  induction place generalizing e other with
  | nil =>
      obtain rfl := Option.some.inj hd
      cases other with
      | nil => exact .inl rfl
      | cons j other =>
          obtain ⟨_, hj, -⟩ := part?_cons_eq_some.mp hc
          simp [hleaf] at hj
  | cons i place ih =>
      obtain ⟨a, ha, hd⟩ := part?_cons_eq_some.mp hd
      cases other with
      | nil =>
          obtain rfl := Option.some.inj hc
          simp [hleaf'] at ha
      | cons j other =>
          obtain ⟨b, hb, hc⟩ := part?_cons_eq_some.mp hc
          rcases Nat.lt_trichotomy i j with hij | rfl | hij
          · exact .inr (.inl (.parting hij _ _))
          · obtain rfl := Option.some.inj (ha.symm.trans hb)
            exact (ih hd hc).imp (congrArg (i :: ·)) (Or.imp (.inside i) (.inside i))
          · exact .inr (.inr (.parting hij _ _))

/-! ## Variables -/

theorem mem_varNames_iff_operands :
    name ∈ e.varNames ↔ e = .var name ∨ ∃ d ∈ e.operands, name ∈ d.varNames := by
  cases e <;> simp [varNames, operands, eq_comm]

/-- The names of the variables are those that stand at some place. -/
theorem mem_varNames_iff : name ∈ e.varNames ↔ ∃ place, e.part? place = some (.var name) := by
  induction e using operandsInduction with
  | node e ih =>
      rw [mem_varNames_iff_operands]
      constructor
      · rintro (rfl | ⟨d, hd, hname⟩)
        · exact ⟨[], rfl⟩
        · obtain ⟨place, hplace⟩ := (ih d hd).mp hname
          obtain ⟨i, hi⟩ := List.getElem?_of_mem hd
          exact ⟨i :: place, part?_cons_eq_some.mpr ⟨d, hi, hplace⟩⟩
      · rintro ⟨_ | ⟨i, place⟩, hplace⟩
        · exact .inl (Option.some.inj hplace)
        · obtain ⟨d, hi, hplace⟩ := part?_cons_eq_some.mp hplace
          have hd := List.mem_of_getElem? hi
          exact .inr ⟨d, hd, (ih d hd).mpr ⟨place, hplace⟩⟩

/-- Only the variables of an expression make a difference to what it evaluates to. -/
theorem evalOperand_congr {scope' : Scope}
    (h : ∀ name ∈ e.varNames, scope'[name]? = scope[name]?) :
    e.evalOperand options scope' = e.evalOperand options scope := by
  induction e with
  | number => rfl
  | var name => rw [evalOperand, evalOperand, h name (List.mem_singleton_self name)]
  | arithmetic _ _ _ ihl ihr | comparison _ _ _ ihl ihr | set _ _ _ ihl ihr =>
      obtain ⟨hl, hr⟩ := List.forall_mem_append.mp h
      rw [evalOperand, evalOperand, ihl hl, ihr hr]
  | aggregation _ _ ih | absent _ ih | modifier _ _ ih =>
      rw [evalOperand, evalOperand, ih h]

/-! ## What evaluates -/

/-- The evaluation succeeds. -/
def Evaluates (options : EvalOptions) (scope : Scope) (e : Expr) : Prop :=
  ∃ value, e.eval options scope = .ok value

theorem evaluates_iff : Evaluates options scope e ↔ ∃ operand, Yields options scope e operand := by
  constructor
  · rintro ⟨_, h⟩
    obtain ⟨operand, hoperand, -⟩ := eval_eq_ok_iff.mp h
    exact ⟨operand, hoperand⟩
  · rintro ⟨operand, h⟩
    exact ⟨operand.toValue, eval_eq_ok_iff.mpr ⟨operand, h, rfl⟩⟩

theorem Evaluates.bound (h : Evaluates options scope (.var name)) :
    ∃ value, scope[name]? = some value := by
  obtain ⟨_, hname⟩ := evaluates_iff.mp h
  cases hname with
  | var hname => exact ⟨_, hname⟩

theorem Evaluates.of_mem_operands (h : Evaluates options scope e) (hd : d ∈ e.operands) :
    Evaluates options scope d := by
  rw [evaluates_iff] at h ⊢
  obtain ⟨_, h⟩ := h
  cases h with
  | number | var => cases hd
  | arithmetic hlhs hrhs | comparison hlhs hrhs | set hlhs hrhs =>
      rcases List.mem_pair.mp hd with rfl | rfl
      · exact ⟨_, hlhs⟩
      · exact ⟨_, hrhs⟩
  | aggregation harg | absent harg | modifier harg =>
      obtain rfl := List.mem_singleton.mp hd
      exact ⟨_, harg⟩

/-- With the whole, every part evaluates, by induction on the way down to it. -/
theorem Evaluates.of_part? (h : Evaluates options scope e) (hd : e.part? place = some d) :
    Evaluates options scope d := by
  induction place generalizing e with
  | nil => exact Option.some.inj hd ▸ h
  | cons i place ih =>
      obtain ⟨c, hi, hd⟩ := part?_cons_eq_some.mp hd
      exact ih (h.of_mem_operands (List.mem_of_getElem? hi)) hd

/-! ## Where an evaluation stops -/

/-- The evaluation fails for an unbound variable. -/
def Reports (options : EvalOptions) (scope : Scope) (name : String) (e : Expr) : Prop :=
  e.evalOperand options scope = .error (.unknownVariable name)

theorem eval_eq_unknownVariable_iff :
    e.eval options scope = .error (.unknownVariable name) ↔ Reports options scope name e := by
  rw [eval, Reports]
  cases e.evalOperand options scope with
  | ok operand => exact iff_of_false (fun h ↦ by cases h) (fun h ↦ by cases h)
  | error error => exact ⟨fun h ↦ congrArg _ (Except.error.inj h), fun h ↦ h ▸ rfl⟩

/-- Of some expressions, one reports the variable and those before it evaluate. -/
def ReportsIn (options : EvalOptions) (scope : Scope) (name : String) (l : List Expr) : Prop :=
  ∃ (i : Nat) (d : Expr), l[i]? = some d ∧ Reports options scope name d ∧
    ∀ j < i, ∀ c, l[j]? = some c → Evaluates options scope c

theorem not_reportsIn_nil : ¬ ReportsIn options scope name [] := by
  rintro ⟨i, d, hd, -⟩
  cases hd

theorem reportsIn_cons {l : List Expr} :
    ReportsIn options scope name (e :: l) ↔
      Reports options scope name e ∨
        Evaluates options scope e ∧ ReportsIn options scope name l := by
  constructor
  · rintro ⟨_ | i, d, hd, hreports, hbefore⟩
    · exact .inl (Option.some.inj hd ▸ hreports)
    · refine .inr ⟨hbefore 0 i.succ_pos e rfl, i, d, hd, hreports, fun j hj c hc ↦ ?_⟩
      exact hbefore (j + 1) (Nat.succ_lt_succ hj) c hc
  · rintro (hreports | ⟨he, i, d, hd, hreports, hbefore⟩)
    · exact ⟨0, e, rfl, hreports, nofun⟩
    · refine ⟨i + 1, d, hd, hreports, fun j hj c hc ↦ ?_⟩
      cases j with
      | zero => exact Option.some.inj hc ▸ he
      | succ j => exact hbefore j (Nat.lt_of_succ_lt_succ hj) c hc

theorem reportsIn_singleton : ReportsIn options scope name [e] ↔ Reports options scope name e := by
  rw [reportsIn_cons, or_iff_left fun h ↦ not_reportsIn_nil h.2]

theorem ne_unknownVariable_of_failsWith {x : Except EvalError Operand}
    (h : FailsWith (EvalError.OfOperator options.rejectNonFinite) x) :
    x ≠ .error (.unknownVariable name) :=
  fun hx ↦ nomatch h _ hx

/-- An operator on one operand reports what the operand does. -/
theorem unary_reports_iff {arg : Expr} {op : Operand → Except EvalError Operand}
    (hop : ∀ a, FailsWith (EvalError.OfOperator options.rejectNonFinite) (op a)) :
    (do let a ← arg.evalOperand options scope; op a) = .error (.unknownVariable name) ↔
      Reports options scope name arg := by
  rw [Reports]
  cases arg.evalOperand options scope with
  | ok a => exact iff_of_false (ne_unknownVariable_of_failsWith (hop a)) nofun
  | error error => exact Iff.rfl

/-- An operator on two operands reports what the left one does, or what the right one does
if the left one evaluates. -/
theorem binary_reports_iff {lhs rhs : Expr} {op : Operand → Operand → Except EvalError Operand}
    (hop : ∀ l r, FailsWith (EvalError.OfOperator options.rejectNonFinite) (op l r)) :
    (do let l ← lhs.evalOperand options scope
        let r ← rhs.evalOperand options scope
        op l r) = .error (.unknownVariable name) ↔
      Reports options scope name lhs ∨
        Evaluates options scope lhs ∧ Reports options scope name rhs := by
  rw [evaluates_iff, Reports]
  simp only [← evalOperand_eq_ok_iff]
  cases lhs.evalOperand options scope with
  | ok l => exact (unary_reports_iff (hop l)).trans (by simp)
  | error error => exact iff_of_eq (by simp [bind, Except.bind])

theorem reports_var_iff {x : String} :
    Reports options scope name (.var x) ↔ x = name ∧ scope[name]? = none := by
  rw [Reports, evalOperand]
  cases hx : scope[x]? <;> grind

/-- A node that is no variable reports one if one of its operands does and those before
evaluate. -/
theorem reports_iff_reportsIn (he : ∀ x, e ≠ .var x) :
    Reports options scope name e ↔ ReportsIn options scope name e.operands := by
  cases e with
  | number => exact iff_of_false (fun h ↦ by cases h) not_reportsIn_nil
  | var x => exact absurd rfl (he x)
  | arithmetic op lhs rhs =>
      rw [operands, reportsIn_cons, reportsIn_singleton]
      exact binary_reports_iff fun l r ↦ (op.evaluate_failsWith _ l r).map _
  | comparison op lhs rhs =>
      rw [operands, reportsIn_cons, reportsIn_singleton]
      exact binary_reports_iff fun l r ↦ (op.evaluate_failsWith l r).map _
  | set op lhs rhs =>
      rw [operands, reportsIn_cons, reportsIn_singleton]
      exact binary_reports_iff fun l r ↦ (op.evaluate_failsWith l r).map _
  | aggregation op arg =>
      rw [operands, reportsIn_singleton]
      exact unary_reports_iff fun a ↦ (op.evaluate_failsWith a).map _
  | absent arg =>
      rw [operands, reportsIn_singleton]
      exact unary_reports_iff fun a ↦ a.absent_failsWith.map _
  | modifier m arg =>
      rw [operands, reportsIn_singleton]
      exact unary_reports_iff fun a ↦ a.modify_failsWith m

/-- A node reports a variable if it is that variable and not bound, or if one of its operands
reports it and those before evaluate. -/
theorem reports_iff_operands :
    Reports options scope name e ↔
      e = .var name ∧ scope[name]? = none ∨ ReportsIn options scope name e.operands := by
  by_cases hvar : ∃ x, e = .var x
  · obtain ⟨x, rfl⟩ := hvar
    rw [reports_var_iff, operands, or_iff_left not_reportsIn_nil, var.injEq]
  · have he (x : String) : e ≠ .var x := fun h ↦ hvar ⟨x, h⟩
    rw [reports_iff_reportsIn he, or_iff_right fun h ↦ he name h.1]

/-- A variable is reported exactly from a place where it stands unbound and to the left of
which everything evaluates, by induction on the way down to it. -/
theorem reports_iff :
    Reports options scope name e ↔ ∃ place, e.part? place = some (.var name) ∧
      scope[name]? = none ∧
      ∀ left d, LeftOf left place → e.part? left = some d → Evaluates options scope d := by
  induction e using operandsInduction with
  | node e ih =>
      rw [reports_iff_operands]
      constructor
      · rintro (⟨rfl, hname⟩ | ⟨i, d, hd, hreports, hbefore⟩)
        · exact ⟨[], rfl, hname, nofun⟩
        · obtain ⟨place, hplace, hname, hleft⟩ := (ih d (List.mem_of_getElem? hd)).mp hreports
          refine ⟨i :: place, part?_cons_eq_some.mpr ⟨d, hd, hplace⟩, hname, ?_⟩
          intro left c hleftOf hc
          cases hleftOf with
          | parting hj =>
              obtain ⟨b, hb, hc⟩ := part?_cons_eq_some.mp hc
              exact (hbefore _ hj b hb).of_part? hc
          | inside _ h =>
              obtain ⟨b, hb, hc⟩ := part?_cons_eq_some.mp hc
              obtain rfl := Option.some.inj (hd.symm.trans hb)
              exact hleft _ c h hc
      · rintro ⟨_ | ⟨i, place⟩, hplace, hname, hleft⟩
        · exact .inl ⟨Option.some.inj hplace, hname⟩
        · obtain ⟨d, hd, hplace⟩ := part?_cons_eq_some.mp hplace
          refine .inr ⟨i, d, hd, ?_, fun j hj c hc ↦ ?_⟩
          · refine (ih d (List.mem_of_getElem? hd)).mpr ⟨place, hplace, hname, ?_⟩
            exact fun left c h hc ↦
              hleft (i :: left) c (.inside i h) (part?_cons_eq_some.mpr ⟨d, hd, hc⟩)
          · exact hleft [j] c (.parting hj [] place) (part?_cons_eq_some.mpr ⟨c, hc, rfl⟩)

/-- A place where a variable stands unbound, if everything to the left of it evaluates, is
that of its first occurrence. -/
theorem firstAt_of_evaluates_left (hplace : e.part? place = some (.var name))
    (hname : scope[name]? = none)
    (hleft : ∀ left d, LeftOf left place → e.part? left = some d → Evaluates options scope d) :
    e.FirstAt name place := by
  refine ⟨hplace, fun other hother ↦ ?_⟩
  rcases eq_or_leftOf hother hplace rfl rfl with heq | hbefore | hafter
  · exact .inl heq
  · obtain ⟨value, hvalue⟩ := (hleft other _ hbefore hother).bound
    exact nomatch hname.symm.trans hvalue
  · exact .inr hafter

/-- If an evaluation succeeds, all variables are bound and all parts evaluate.  It fails for
an unbound variable exactly if that is not bound and, to the left of its first occurrence,
all variables are bound and all parts evaluate.  What variables stand for that do not occur
makes no difference. -/
theorem eval_left_to_right (options : EvalOptions) (scope : Scope) (e : Expr) :
    (Evaluates options scope e →
      (∀ name ∈ e.varNames, ∃ value, scope[name]? = some value) ∧
        ∀ place d, e.part? place = some d → Evaluates options scope d) ∧
    (∀ name, e.eval options scope = .error (.unknownVariable name) ↔
      name ∈ e.varNames ∧ scope[name]? = none ∧ ∃ place, e.FirstAt name place ∧
        (∀ left other, LeftOf left place → e.part? left = some (.var other) →
          ∃ value, scope[other]? = some value) ∧
        ∀ left d, LeftOf left place → e.part? left = some d → Evaluates options scope d) ∧
    ∀ scope' : Scope, (∀ name ∈ e.varNames, scope'[name]? = scope[name]?) →
      e.eval options scope' = e.eval options scope := by
  refine ⟨fun h ↦ ⟨fun name hname ↦ ?_, fun place d ↦ h.of_part?⟩, fun name ↦ ?_,
    fun scope' h ↦ ?_⟩
  · obtain ⟨place, hplace⟩ := mem_varNames_iff.mp hname
    exact (h.of_part? hplace).bound
  · rw [eval_eq_unknownVariable_iff, reports_iff]
    constructor
    · rintro ⟨place, hplace, hname, hleft⟩
      exact ⟨mem_varNames_iff.mpr ⟨place, hplace⟩, hname, place,
        firstAt_of_evaluates_left hplace hname hleft,
        fun left other h hother ↦ (hleft left _ h hother).bound, hleft⟩
    · rintro ⟨-, hname, place, hfirst, -, hleft⟩
      exact ⟨place, hfirst.occurs, hname, hleft⟩
  · rw [eval, eval, evalOperand_congr h]

/-- The hosts summed up by data centre, without the labels of a product that needs an unbound
variable and, to the right of that, an average of a number. -/
def hostsUnlessCores : Expr :=
  .set .unless (.sum (.byLabels ["dc"] (.var "hosts")))
    (.multiply (.var "processors") (.on ["host"] (.subtract (.var "cores") (.avg (.number 1)))))

/-- The sum in front is evaluated before the cores are missed, although the whole has no value;
the average to the right, which would fail too, is not come to. -/
theorem eval_hostsUnlessCores :
    hostsUnlessCores.eval {} hostScope = .error (.unknownVariable "cores") ∧
    Evaluates {} hostScope (.sum (.byLabels ["dc"] (.var "hosts"))) ∧
    (∃ value, hostScope["hosts"]? = some value) ∧
    (∀ name ∈ hostsUnlessCores.varNames, (hostScope.insert "load" (.scalar 1))[name]? =
      hostScope[name]?) ∧
    hostsUnlessCores.eval {} (hostScope.insert "load" (.scalar 1)) =
      .error (.unknownVariable "cores") := by
  have heval : hostsUnlessCores.eval {} hostScope = .error (.unknownVariable "cores") := by
    decide +kernel
  have hagree : ∀ name ∈ hostsUnlessCores.varNames,
      (hostScope.insert "load" (.scalar 1))[name]? = hostScope[name]? := by
    intro name hname
    have hne : "load" ≠ name := by
      rintro rfl
      exact absurd hname (by decide)
    simp [Std.TreeMap.getElem?_insert, hne]
  obtain ⟨-, hreports, hcongr⟩ := eval_left_to_right {} hostScope hostsUnlessCores
  obtain ⟨-, -, place, hfirst, -, hleft⟩ := (hreports "cores").mp heval
  have hsum : LeftOf [0] place := by
    have hoccurs := hfirst.occurs
    rcases place with _ | ⟨_ | i, place⟩
    · cases hoccurs
    · have hmem : "cores" ∈ (sum (.byLabels ["dc"] (.var "hosts"))).varNames :=
        mem_varNames_iff.mpr ⟨place, hoccurs⟩
      exact absurd hmem (by decide)
    · exact .parting i.succ_pos [] place
  have hevaluates : Evaluates {} hostScope (.sum (.byLabels ["dc"] (.var "hosts"))) :=
    hleft [0] _ hsum rfl
  obtain ⟨hbound, -⟩ := (eval_left_to_right {} hostScope _).1 hevaluates
  exact ⟨heval, hevaluates, hbound "hosts" (by decide), hagree, (hcongr _ hagree).trans heval⟩

end VectorQuery.Expr
