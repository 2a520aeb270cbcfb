import VectorQuery.Proofs.Eval.Substitution

/-!
# Where modifiers are read

Modifiers are written as nodes around an operand, and it is for the operator above
them to read what they set up.  If an evaluation succeeds, each chain of modifiers
below an operator is read by it, keyword by keyword; all else would have been an
error.  Nothing reads the chain around the whole expression, and nothing checks it:
such modifiers are ignored.
-/

namespace VectorQuery

/-! ## What operators check -/

theorem Modifiers.ensureRead_eq_ok_iff {m : Modifiers} {read : List Keyword} :
    m.ensureRead read = .ok () ↔ ∀ keyword ∈ m.keywords, keyword ∈ read := by
  rw [ensureRead]
  split
  · rename_i keyword h
    have hmem := List.mem_of_find?_eq_some h
    have hread := List.find?_some h
    simp only [reduceCtorEq, false_iff]
    exact fun hall ↦ by simp [hall keyword hmem] at hread
  · rename_i h
    simpa using h

theorem Modifiers.notMem_keywords {m : Modifiers} (h : m.ensureRead [] = .ok ())
    (keyword : Keyword) : keyword ∉ m.keywords :=
  fun hkeyword ↦ nomatch ensureRead_eq_ok_iff.mp h keyword hkeyword

/-- The modifiers that an operand brings along; a scalar has none. -/
def Operand.modifiers : Operand → Modifiers
  | .scalar _ => {}
  | .vector _ m => m

theorem Operand.modifiers_ofValue (value : Value) : (ofValue value).modifiers = {} := by
  cases value <;> rfl

theorem ArithmeticOp.Yields.keywords {op : ArithmeticOp} {rejectNonFinite : Bool}
    {l r : Operand} {value : Value} (h : op.Yields rejectNonFinite l r value) :
    (∀ keyword, keyword ∉ l.modifiers.keywords) ∧
      ∀ keyword ∈ r.modifiers.keywords, (∃ v, l.toValue = .vector v) ∧
        keyword ∈ Keyword.matching := by
  cases h with
  | scalars => exact ⟨nofun, nofun⟩
  | vectors hm hn =>
      exact ⟨Modifiers.notMem_keywords hm, fun keyword hkeyword ↦
        ⟨⟨_, rfl⟩, Modifiers.ensureRead_eq_ok_iff.mp hn keyword hkeyword⟩⟩
  | vectorScalar hm => exact ⟨Modifiers.notMem_keywords hm, nofun⟩
  | scalarVector hn =>
      exact ⟨nofun, fun keyword hkeyword ↦ absurd hkeyword (Modifiers.notMem_keywords hn keyword)⟩

theorem ComparisonOp.Yields.keywords {op : ComparisonOp} {l r : Operand} {value : Value}
    (h : op.Yields l r value) :
    (∀ keyword ∈ l.modifiers.keywords, (∃ y, r.toValue = .scalar y) ∧
      keyword = .returnBool) ∧
    ∀ keyword ∈ r.modifiers.keywords,
      (∃ v, l.toValue = .vector v) ∧ keyword ∈ Keyword.matching ++ [.returnBool] ∨
        (∃ x, l.toValue = .scalar x) ∧ keyword = .returnBool := by
  cases h with
  | scalars => exact ⟨nofun, nofun⟩
  | vectors hm hn =>
      refine ⟨fun keyword hkeyword ↦ ?_, fun keyword hkeyword ↦ .inl ⟨⟨_, rfl⟩, ?_⟩⟩
      · exact nomatch Modifiers.ensureRead_eq_ok_iff.mp hm keyword hkeyword
      · exact Modifiers.ensureRead_eq_ok_iff.mp hn keyword hkeyword
  | vectorScalar hm =>
      refine ⟨fun keyword hkeyword ↦ ⟨⟨_, rfl⟩, ?_⟩, nofun⟩
      exact List.mem_singleton.mp (Modifiers.ensureRead_eq_ok_iff.mp hm keyword hkeyword)
  | scalarVector hn =>
      refine ⟨nofun, fun keyword hkeyword ↦ .inr ⟨⟨_, rfl⟩, ?_⟩⟩
      exact List.mem_singleton.mp (Modifiers.ensureRead_eq_ok_iff.mp hn keyword hkeyword)

theorem SetOp.Yields.keywords {op : SetOp} {l r : Operand} {value : Value}
    (h : op.Yields l r value) (keyword : Keyword) :
    keyword ∉ l.modifiers.keywords ∧ keyword ∉ r.modifiers.keywords := by
  cases h with
  | vectors hm hn =>
      exact ⟨Modifiers.notMem_keywords hm keyword, Modifiers.notMem_keywords hn keyword⟩

theorem AggregationOp.Yields.keywords {op : AggregationOp} {arg : Operand} {value : Value}
    (h : op.Yields arg value) : ∀ keyword ∈ arg.modifiers.keywords, keyword ∈ Keyword.grouping := by
  cases h with
  | vector hm => exact Modifiers.ensureRead_eq_ok_iff.mp hm

theorem Operand.YieldsAbsent.keywords {arg : Operand} {value : Value}
    (h : arg.YieldsAbsent value) (keyword : Keyword) : keyword ∉ arg.modifiers.keywords := by
  cases h with
  | vector hm => exact Modifiers.notMem_keywords hm keyword

namespace Expr

/-! ## Chains and where they stand -/

/-- Modifiers around an operand, the first one innermost. -/
def modified (chain : List Modifier) (arg : Expr) : Expr :=
  chain.foldl (fun e m ↦ .modifier m e) arg

/-- The place of a sub-expression: the node above it, with what else that has. -/
inductive Site where
  | root
  | modifier (m : Modifier)
  | arithmeticLeft (op : ArithmeticOp) (rhs : Expr)
  | arithmeticRight (op : ArithmeticOp) (lhs : Expr)
  | comparisonLeft (op : ComparisonOp) (rhs : Expr)
  | comparisonRight (op : ComparisonOp) (lhs : Expr)
  | setLeft (op : SetOp) (rhs : Expr)
  | setRight (op : SetOp) (lhs : Expr)
  | aggregation (op : AggregationOp)
  | absent

/-- The expression `e` has a sub-expression at a site. -/
inductive Occurs (e : Expr) : Site → Expr → Prop where
  | root : Occurs e .root e
  | modifier {site : Site} {m : Modifier} {arg : Expr}
      (h : Occurs e site (.modifier m arg)) : Occurs e (.modifier m) arg
  | arithmeticLeft {site : Site} {op : ArithmeticOp} {lhs rhs : Expr}
      (h : Occurs e site (.arithmetic op lhs rhs)) : Occurs e (.arithmeticLeft op rhs) lhs
  | arithmeticRight {site : Site} {op : ArithmeticOp} {lhs rhs : Expr}
      (h : Occurs e site (.arithmetic op lhs rhs)) : Occurs e (.arithmeticRight op lhs) rhs
  | comparisonLeft {site : Site} {op : ComparisonOp} {lhs rhs : Expr}
      (h : Occurs e site (.comparison op lhs rhs)) : Occurs e (.comparisonLeft op rhs) lhs
  | comparisonRight {site : Site} {op : ComparisonOp} {lhs rhs : Expr}
      (h : Occurs e site (.comparison op lhs rhs)) : Occurs e (.comparisonRight op lhs) rhs
  | setLeft {site : Site} {op : SetOp} {lhs rhs : Expr}
      (h : Occurs e site (.set op lhs rhs)) : Occurs e (.setLeft op rhs) lhs
  | setRight {site : Site} {op : SetOp} {lhs rhs : Expr}
      (h : Occurs e site (.set op lhs rhs)) : Occurs e (.setRight op lhs) rhs
  | aggregation {site : Site} {op : AggregationOp} {arg : Expr}
      (h : Occurs e site (.aggregation op arg)) : Occurs e (.aggregation op) arg
  | absent {site : Site} {arg : Expr} (h : Occurs e site (.absent arg)) :
      Occurs e .absent arg

/-- The expression `e` has, at a site, a chain of modifiers that no further modifier
goes on with, neither around it nor inside. -/
structure MaximalChain (e : Expr) (site : Site) (chain : List Modifier) (arg : Expr) :
    Prop where
  occurs : Occurs e site (modified chain arg)
  outermost (m : Modifier) : site ≠ .modifier m
  innermost (m : Modifier) (inner : Expr) : arg ≠ .modifier m inner

variable (options : EvalOptions) (scope : Scope)

/-- The operator above a site reads a keyword of the vector at the site. -/
inductive Site.Reads : Site → Keyword → Prop where
  | arithmetic {op : ArithmeticOp} {lhs : Expr} {v : InstantVector} {keyword : Keyword}
      (hlhs : lhs.eval options scope = .ok (.vector v))
      (h : keyword ∈ [.on, .ignoring, .groupLeft, .groupRight]) :
      Reads (.arithmeticRight op lhs) keyword
  | comparison {op : ComparisonOp} {lhs : Expr} {v : InstantVector} {keyword : Keyword}
      (hlhs : lhs.eval options scope = .ok (.vector v))
      (h : keyword ∈ [.on, .ignoring, .groupLeft, .groupRight, .returnBool]) :
      Reads (.comparisonRight op lhs) keyword
  | comparisonWithScalar {op : ComparisonOp} {rhs : Expr} {x : Float}
      (hrhs : rhs.eval options scope = .ok (.scalar x)) :
      Reads (.comparisonLeft op rhs) .returnBool
  | comparisonOfScalar {op : ComparisonOp} {lhs : Expr} {x : Float}
      (hlhs : lhs.eval options scope = .ok (.scalar x)) :
      Reads (.comparisonRight op lhs) .returnBool
  | aggregation {op : AggregationOp} {keyword : Keyword}
      (h : keyword ∈ [.byLabels, .withoutLabels]) : Reads (.aggregation op) keyword

variable {options scope} {e d arg : Expr} {site : Site} {chain : List Modifier}

/-! ## What is read -/

theorem Yields.eval_eq {operand : Operand} (h : Yields options scope e operand) :
    e.eval options scope = .ok operand.toValue :=
  eval_eq_ok_iff.mpr ⟨operand, h, rfl⟩

/-- With the whole, every part is evaluated, by induction on the way down to it.  The
modifiers that it has are read by the operator above it. -/
theorem Occurs.exists_yields (hd : Occurs e site d) {whole : Operand}
    (h : Yields options scope e whole) :
    ∃ part, Yields options scope d part ∧
      (site ≠ .root → (∀ m, site ≠ .modifier m) →
        ∀ keyword ∈ part.modifiers.keywords, site.Reads options scope keyword) := by
  induction hd with
  | root => exact ⟨whole, h, fun hroot ↦ absurd rfl hroot⟩
  | modifier _ ih =>
      obtain ⟨_, hpart, -⟩ := ih
      cases hpart with
      | modifier harg => exact ⟨_, harg, fun _ hmodifier ↦ absurd rfl (hmodifier _)⟩
  | arithmeticLeft _ ih =>
      obtain ⟨_, hpart, -⟩ := ih
      cases hpart with
      | arithmetic hlhs hrhs hop =>
          exact ⟨_, hlhs, fun _ _ keyword hkeyword ↦ absurd hkeyword (hop.keywords.1 keyword)⟩
  | arithmeticRight _ ih =>
      obtain ⟨_, hpart, -⟩ := ih
      cases hpart with
      | arithmetic hlhs hrhs hop =>
          refine ⟨_, hrhs, fun _ _ keyword hkeyword ↦ ?_⟩
          obtain ⟨⟨v, hv⟩, hread⟩ := hop.keywords.2 keyword hkeyword
          exact .arithmetic (hv ▸ hlhs.eval_eq) hread
  | comparisonLeft _ ih =>
      obtain ⟨_, hpart, -⟩ := ih
      cases hpart with
      | comparison hlhs hrhs hop =>
          refine ⟨_, hlhs, fun _ _ keyword hkeyword ↦ ?_⟩
          obtain ⟨⟨y, hy⟩, rfl⟩ := hop.keywords.1 keyword hkeyword
          exact .comparisonWithScalar (hy ▸ hrhs.eval_eq)
  | comparisonRight _ ih =>
      obtain ⟨_, hpart, -⟩ := ih
      cases hpart with
      | comparison hlhs hrhs hop =>
          refine ⟨_, hrhs, fun _ _ keyword hkeyword ↦ ?_⟩
          rcases hop.keywords.2 keyword hkeyword with ⟨⟨v, hv⟩, hread⟩ | ⟨⟨x, hx⟩, rfl⟩
          · exact .comparison (hv ▸ hlhs.eval_eq) hread
          · exact .comparisonOfScalar (hx ▸ hlhs.eval_eq)
  | setLeft _ ih =>
      obtain ⟨_, hpart, -⟩ := ih
      cases hpart with
      | set hlhs hrhs hop =>
          exact ⟨_, hlhs, fun _ _ keyword hkeyword ↦ absurd hkeyword (hop.keywords keyword).1⟩
  | setRight _ ih =>
      obtain ⟨_, hpart, -⟩ := ih
      cases hpart with
      | set hlhs hrhs hop =>
          exact ⟨_, hrhs, fun _ _ keyword hkeyword ↦ absurd hkeyword (hop.keywords keyword).2⟩
  | aggregation _ ih =>
      obtain ⟨_, hpart, -⟩ := ih
      cases hpart with
      | aggregation harg hop =>
          exact ⟨_, harg, fun _ _ keyword hkeyword ↦ .aggregation (hop.keywords keyword hkeyword)⟩
  | absent _ ih =>
      obtain ⟨_, hpart, -⟩ := ih
      cases hpart with
      | absent harg hop =>
          exact ⟨_, harg, fun _ _ keyword hkeyword ↦ absurd hkeyword (hop.keywords keyword)⟩

theorem modified_concat (chain : List Modifier) (m : Modifier) (arg : Expr) :
    modified (chain ++ [m]) arg = .modifier m (modified chain arg) := by
  rw [modified, List.foldl_concat, modified]

/-- A chain leaves the value as it is, and sets up its modifiers from the inside out. -/
theorem Yields.of_modified (hinner : ∀ m inner, arg ≠ .modifier m inner) {operand : Operand}
    (h : Yields options scope (modified chain arg) operand) :
    arg.eval options scope = .ok operand.toValue ∧
      operand.modifiers = Modifiers.ofChain chain := by
  induction chain using List.reverseRecOn generalizing operand with
  | nil =>
      refine ⟨h.eval_eq, ?_⟩
      rw [Yields.eq_ofValue h hinner, Operand.modifiers_ofValue]
      rfl
  | append_singleton chain m ih =>
      rw [modified_concat] at h
      cases h with
      | modifier harg =>
          obtain ⟨hvalue, hmodifiers⟩ := ih harg
          refine ⟨hvalue, ?_⟩
          rw [Modifiers.ofChain, List.foldl_concat, ← Modifiers.ofChain, ← hmodifiers]
          rfl

theorem Site.not_reads_root {keyword : Keyword} : ¬ Site.root.Reads options scope keyword :=
  nofun

/-- If an evaluation succeeds, every chain of modifiers but the one around the whole
expression stands below an operator that reads all of its keywords.  The chain around
the whole makes no difference to the value, whatever its keywords.  So all keywords
are read exactly if that chain has none. -/
theorem modifiers_read_of_eval {value : Value} (h : e.eval options scope = .ok value) :
    (∀ site chain arg, MaximalChain e site chain arg → site ≠ .root →
      ∀ keyword ∈ (Modifiers.ofChain chain).keywords, site.Reads options scope keyword) ∧
    (∀ chain arg, MaximalChain e .root chain arg → arg.eval options scope = .ok value) ∧
    ((∀ site chain arg, MaximalChain e site chain arg →
        ∀ keyword ∈ (Modifiers.ofChain chain).keywords, site.Reads options scope keyword) ↔
      ∀ chain arg, MaximalChain e .root chain arg →
        (Modifiers.ofChain chain).keywords = []) := by
  obtain ⟨whole, hwhole, hvalue⟩ := eval_eq_ok_iff.mp h
  have hbelow (site : Site) (chain : List Modifier) (arg : Expr)
      (hchain : MaximalChain e site chain arg) (hsite : site ≠ .root) (keyword : Keyword)
      (hkeyword : keyword ∈ (Modifiers.ofChain chain).keywords) :
      site.Reads options scope keyword := by
    obtain ⟨part, hpart, hread⟩ := hchain.occurs.exists_yields hwhole
    obtain ⟨-, hmodifiers⟩ := hpart.of_modified hchain.innermost
    exact hread hsite hchain.outermost keyword (hmodifiers ▸ hkeyword)
  refine ⟨hbelow, fun chain arg hchain ↦ ?_, fun hall chain arg hchain ↦ ?_,
    fun hroot site chain arg hchain keyword hkeyword ↦ ?_⟩
  · have hmodified : modified chain arg = e := by
      cases hchain.occurs
      rfl
    rw [← hvalue]
    exact (Yields.of_modified hchain.innermost (hmodified ▸ hwhole)).1
  · exact List.eq_nil_iff_forall_not_mem.mpr fun keyword hkeyword ↦
      Site.not_reads_root (hall .root chain arg hchain keyword hkeyword)
  · by_cases hsite : site = .root
    · subst hsite
      rw [hroot chain arg hchain] at hkeyword
      cases hkeyword
    · exact hbelow site chain arg hchain hsite keyword hkeyword

/-- The join with the hosts in `joinedOrSummed` has its modifiers read, and a `bool`
around the whole has no effect. -/
theorem modifiers_read_joinedOrSummed :
    (Expr.returnBool joinedOrSummed).eval {} hostScope = .ok (.vector joinedOrSummedResult) ∧
    Site.Reads {} hostScope (.arithmeticRight .multiply (.var "processors")) .groupLeft ∧
    joinedOrSummed.eval {} hostScope = .ok (.vector joinedOrSummedResult) := by
  have heval : (Expr.returnBool joinedOrSummed).eval {} hostScope =
      .ok (.vector joinedOrSummedResult) := by
    decide +kernel
  have hchain : MaximalChain (Expr.returnBool joinedOrSummed)
      (.arithmeticRight .multiply (.var "processors"))
      [.groupLeft ["dc"], .on ["host"]] (.var "hosts") :=
    ⟨.arithmeticRight (.setLeft (.modifier .root)), nofun, nofun⟩
  have hroot : MaximalChain (Expr.returnBool joinedOrSummed) .root [.returnBool]
      joinedOrSummed :=
    ⟨.root, nofun, nofun⟩
  obtain ⟨hread, hignored, -⟩ := modifiers_read_of_eval heval
  refine ⟨heval, ?_, hignored _ _ hroot⟩
  exact hread _ _ _ hchain nofun .groupLeft (by decide)

/-- A grouping around a variable, which no operator reads, is not found out. -/
theorem eval_byLabels_hosts :
    (byLabels ["host"] (.var "hosts")).eval {} hostScope = .ok (.vector NestedLoop.hosts) ∧
    MaximalChain (byLabels ["host"] (.var "hosts")) .root [.byLabels ["host"]] (.var "hosts") ∧
    (Modifiers.ofChain [.byLabels ["host"]]).keywords = [.byLabels] ∧
    ¬ Site.root.Reads {} hostScope .byLabels :=
  ⟨by decide +kernel, ⟨.root, nofun, nofun⟩, rfl, Site.not_reads_root⟩

end Expr

end VectorQuery
