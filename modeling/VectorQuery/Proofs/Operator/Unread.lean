import VectorQuery.Proofs.Join.Outcome
import VectorQuery.Proofs.Operator.Rules

/-!
# Modifiers that are not read

An operator refuses modifiers that it does not read.  What it goes by is the keywords in
effect, of which there is at most one for each component of the modifiers; a component has
a keyword exactly if it has been set to something.  For the labels that a join includes
this is not a matter of course, since no keyword tells of them: it holds because they are
only ever set together with the cardinality.
-/

namespace VectorQuery

namespace Modifiers

/-- The components of what modifiers set up, in the order in which they are looked at. -/
inductive Component where
  | matching
  | grouping
  | returnBool
deriving DecidableEq, Repr

namespace Component

def all : List Component := [.matching, .grouping, .returnBool]

theorem mem_all (c : Component) : c ∈ all := by
  cases c <;> decide

/-- The keywords that a component can be set by. -/
def keywords : Component → List Keyword
  | .matching => Keyword.matching
  | .grouping => Keyword.grouping
  | .returnBool => [.returnBool]

end Component

/-- A component differs from what it is without modifiers. -/
def Sets (m : Modifiers) : Component → Prop
  | .matching => m.matching ≠ {}
  | .grouping => m.grouping ≠ {}
  | .returnBool => m.returnBool ≠ false

instance (m : Modifiers) : DecidablePred m.Sets
  | .matching => inferInstanceAs (Decidable (m.matching ≠ {}))
  | .grouping => inferInstanceAs (Decidable (m.grouping ≠ {}))
  | .returnBool => inferInstanceAs (Decidable (m.returnBool ≠ false))

/-- The keyword that stands for a component; of the matching, that of the cardinality
unless both sides are unique. -/
def keywordOf (m : Modifiers) : Component → Keyword
  | .matching =>
      match m.matching.cardinality with
      | .manyToOne => .groupLeft
      | .oneToMany => .groupRight
      | .oneToOne => if m.matching.on then .on else .ignoring
  | .grouping => if m.grouping.without then .withoutLabels else .byLabels
  | .returnBool => .returnBool

/-- The keyword of the first component that is set and not among those that are read. -/
def firstUnread? (m : Modifiers) (read : List Component) : Option Keyword :=
  (Component.all.find? fun c ↦ m.Sets c ∧ c ∉ read).map m.keywordOf

variable {m : Modifiers}

/-! ## What setters set up -/

/-- Labels are included only where there may be many samples for one. -/
def IncludesForMany (m : Modifiers) : Prop :=
  m.matching.cardinality = .oneToOne → m.matching.included = []

theorem IncludesForMany.apply (h : m.IncludesForMany) (modifier : Modifier) :
    (m.apply modifier).IncludesForMany := by
  cases modifier with
  | groupLeft included => nofun
  | groupRight included => nofun
  | on | ignoring | byLabels | withoutLabels | returnBool => exact h

theorem includesForMany_ofChain (chain : List Modifier) :
    (ofChain chain).IncludesForMany := by
  have hfoldl {m : Modifiers} (h : m.IncludesForMany) :
      (chain.foldl Modifiers.apply m).IncludesForMany := by
    induction chain generalizing m with
    | nil => exact h
    | cons modifier chain ih => exact ih (h.apply modifier)
  exact hfoldl fun _ ↦ rfl

/-! ## Components and their keywords -/

theorem keywordOf_mem_keywords_iff (m : Modifiers) {c c' : Component} :
    m.keywordOf c ∈ c'.keywords ↔ c = c' := by
  have hmatching : m.keywordOf .matching ∈ Keyword.matching := by
    rw [keywordOf]
    split
    · decide
    · decide
    · split <;> decide
  have hgrouping : m.keywordOf .grouping ∈ Keyword.grouping := by
    rw [keywordOf]
    split <;> decide
  have hown (c : Component) : m.keywordOf c ∈ c.keywords := by
    cases c with
    | matching => exact hmatching
    | grouping => exact hgrouping
    | returnBool => exact List.mem_singleton_self _
  have hdisjoint (c c' : Component) :
      c = c' ∨ ∀ keyword ∈ c.keywords, keyword ∉ c'.keywords := by
    cases c <;> cases c' <;> decide
  constructor
  · exact fun h ↦ (hdisjoint c c').resolve_right fun hnot ↦ hnot _ (hown c) h
  · exact fun h ↦ h ▸ hown c

theorem matchingKeyword?_eq (h : m.IncludesForMany) :
    m.matchingKeyword? = if m.Sets .matching then some (m.keywordOf .matching) else none := by
  obtain ⟨⟨cardinality, labels, on, included⟩, grouping, returnBool⟩ := m
  cases cardinality with
  | manyToOne => rfl
  | oneToMany => rfl
  | oneToOne =>
      obtain rfl : included = [] := h rfl
      cases on <;> cases labels <;> rfl

theorem groupingKeyword?_eq (m : Modifiers) :
    m.groupingKeyword? = if m.Sets .grouping then some (m.keywordOf .grouping) else none := by
  obtain ⟨matching, ⟨labels, without⟩, returnBool⟩ := m
  cases without <;> cases labels <;> rfl

/-- The keywords in effect are those of the components that are set. -/
theorem keywords_eq_map_filter (h : m.IncludesForMany) :
    m.keywords = (Component.all.filter m.Sets).map m.keywordOf := by
  rw [keywords, matchingKeyword?_eq h, groupingKeyword?_eq, Component.all]
  have hreturnBool : m.Sets .returnBool ↔ m.returnBool = true := by
    rw [Sets, ne_eq, Bool.not_eq_false]
  simp only [List.filter_cons, List.filter_nil, hreturnBool, decide_eq_true_eq]
  split <;> split <;> split <;> rfl

theorem ensureRead_eq (h : m.IncludesForMany) (read : List Component) :
    m.ensureRead (read.flatMap Component.keywords) =
      match m.firstUnread? read with
      | some keyword => .error (.unsupportedModifier keyword)
      | none => .ok () := by
  have hfind : m.keywords.find? (!(read.flatMap Component.keywords).contains ·) =
      m.firstUnread? read := by
    rw [keywords_eq_map_filter h, firstUnread?, List.find?_map, List.find?_filter]
    congr 2
    funext c
    simp [keywordOf_mem_keywords_iff]
  generalize m.firstUnread? read = unread at hfind ⊢
  cases unread <;> simp only [ensureRead, hfind]

theorem isSome_firstUnread?_iff {read : List Component} :
    (m.firstUnread? read).isSome ↔ ∃ c, m.Sets c ∧ c ∉ read := by
  simp [firstUnread?, List.find?_isSome, Component.mem_all]

end Modifiers

/-! ## Operators and what they read -/

/-- An operator with its operands. -/
inductive Operation where
  | arithmetic (op : ArithmeticOp) (rejectNonFinite : Bool) (lhs rhs : Operand)
  | comparison (op : ComparisonOp) (lhs rhs : Operand)
  | set (op : SetOp) (lhs rhs : Operand)
  | aggregation (op : AggregationOp) (arg : Operand)
  | absent (arg : Operand)

namespace Operation

def evaluate : Operation → Except EvalError Value
  | .arithmetic op rejectNonFinite lhs rhs => op.evaluate rejectNonFinite lhs rhs
  | .comparison op lhs rhs => op.evaluate lhs rhs
  | .set op lhs rhs => op.evaluate lhs rhs
  | .aggregation op arg => op.evaluate arg
  | .absent arg => arg.absent

/-- The operator, if it only takes vectors and some operand is a scalar. -/
def mistyped? : Operation → Option VectorOperator
  | .set _ (.vector _ _) (.vector _ _) => none
  | .set op _ _ => some (.set op)
  | .aggregation op (.scalar _) => some (.aggregation op)
  | .absent (.scalar _) => some .absent
  | _ => none

/-- The modifiers of the vectors among the operands, from left to right, with the
components that the operator reads of each. -/
def reads : Operation → List (Modifiers × List Modifiers.Component)
  | .arithmetic _ _ (.vector _ m) (.vector _ n) => [(m, []), (n, [.matching])]
  | .arithmetic _ _ (.vector _ m) (.scalar _) => [(m, [])]
  | .arithmetic _ _ (.scalar _) (.vector _ n) => [(n, [])]
  | .comparison _ (.vector _ m) (.vector _ n) => [(m, []), (n, [.matching, .returnBool])]
  | .comparison _ (.vector _ m) (.scalar _) => [(m, [.returnBool])]
  | .comparison _ (.scalar _) (.vector _ n) => [(n, [.returnBool])]
  | .set _ (.vector _ m) (.vector _ n) => [(m, []), (n, [])]
  | .aggregation _ (.vector _ m) => [(m, [.grouping])]
  | .absent (.vector _ m) => [(m, [])]
  | _ => []

/-- The keyword of the first component that is set and not read, of the left operand or
else of the right one. -/
def firstUnread? (o : Operation) : Option Keyword :=
  o.reads.findSome? fun (m, read) ↦ m.firstUnread? read

theorem isSome_firstUnread?_iff {o : Operation} :
    o.firstUnread?.isSome ↔ ∃ m read, (m, read) ∈ o.reads ∧ ∃ c, m.Sets c ∧ c ∉ read := by
  simp only [firstUnread?, List.findSome?_isSome_iff, Prod.exists,
    Modifiers.isSome_firstUnread?_iff]

/-- Some modifiers checked one after the other, and then an outcome. -/
def checked : List (Modifiers × List Modifiers.Component) → Except EvalError Value →
    Except EvalError Value
  | [], outcome => outcome
  | (m, read) :: reads, outcome =>
      m.ensureRead (read.flatMap Modifiers.Component.keywords) >>= fun _ ↦
        checked reads outcome

/-- The outcome is not the error of a modifier. -/
def Settled (outcome : Except EvalError Value) : Prop :=
  ∀ keyword, outcome ≠ .error (.unsupportedModifier keyword)

theorem settled_ok (value : Value) : Settled (.ok value) := nofun

theorem settled_scalars (op : ArithmeticOp) (rejectNonFinite : Bool) (x y : Float) :
    Settled (op.evaluate rejectNonFinite (.scalar x) (.scalar y)) := by
  intro keyword h
  rw [ArithmeticOp.evaluate] at h
  split at h <;> cases h

theorem settled_joined (outcome : Except DuplicateLabels InstantVector) :
    Settled (match outcome with
      | .error duplicate => .error (.duplicateLabelSet duplicate)
      | .ok joined => .ok (.vector joined)) := by
  cases outcome <;> nofun

/-- Whatever an operator does with its operands, it checks their modifiers before. -/
theorem exists_evaluate_eq_checked {o : Operation} (h : o.mistyped? = none) :
    ∃ outcome, Settled outcome ∧ o.evaluate = checked o.reads outcome := by
  cases o with
  | arithmetic op rejectNonFinite lhs rhs =>
      cases lhs with
      | scalar x =>
          cases rhs with
          | scalar y => exact ⟨_, settled_scalars op rejectNonFinite x y, rfl⟩
          | vector w n => exact ⟨_, settled_ok _, rfl⟩
      | vector v m =>
          cases rhs with
          | scalar y => exact ⟨_, settled_ok _, rfl⟩
          | vector w n => exact ⟨_, settled_joined _, rfl⟩
  | comparison op lhs rhs =>
      cases lhs with
      | scalar x =>
          cases rhs with
          | scalar y => exact ⟨_, settled_ok _, rfl⟩
          | vector w n => exact ⟨_, settled_ok _, rfl⟩
      | vector v m =>
          cases rhs with
          | scalar y => exact ⟨_, settled_ok _, rfl⟩
          | vector w n => exact ⟨_, settled_joined _, rfl⟩
  | set op lhs rhs =>
      cases lhs with
      | scalar x => cases h
      | vector v m =>
          cases rhs with
          | scalar y => cases h
          | vector w n => exact ⟨_, settled_ok _, rfl⟩
  | aggregation op arg =>
      cases arg with
      | scalar x => cases h
      | vector v m => exact ⟨_, settled_ok _, rfl⟩
  | absent arg =>
      cases arg with
      | scalar x => cases h
      | vector v m => exact ⟨_, settled_ok _, rfl⟩

theorem evaluate_of_mistyped {o : Operation} {op : VectorOperator}
    (h : o.mistyped? = some op) : o.evaluate = .error (.operandType op) := by
  cases o with
  | arithmetic | comparison => cases h
  | set op lhs rhs => cases lhs <;> cases rhs <;> cases h <;> rfl
  | aggregation op arg =>
      cases arg with
      | scalar x =>
          cases h
          rfl
      | vector v m => cases h
  | absent arg =>
      cases arg with
      | scalar x =>
          cases h
          rfl
      | vector v m => cases h

/-- By induction on the modifiers: the first that are not read throughout name the
error. -/
theorem checked_eq_error_iff {reads : List (Modifiers × List Modifiers.Component)}
    (hreads : ∀ p ∈ reads, p.1.IncludesForMany) {outcome : Except EvalError Value}
    (houtcome : Settled outcome) (keyword : Keyword) :
    checked reads outcome = .error (.unsupportedModifier keyword) ↔
      reads.findSome? (fun (m, read) ↦ m.firstUnread? read) = some keyword := by
  induction reads with
  | nil =>
      rw [checked, List.findSome?_nil]
      exact iff_of_false (houtcome keyword) nofun
  | cons p reads ih =>
      obtain ⟨m, read⟩ := p
      obtain ⟨hm, hreads⟩ := List.forall_mem_cons.mp hreads
      simp only [checked, Modifiers.ensureRead_eq hm, List.findSome?_cons]
      cases m.firstUnread? read with
      | none => exact ih hreads
      | some unread => simp [bind, Except.bind]

/-- Operators accept the modifiers that they read, and no others.  If the operands are of
shapes that the operator takes, it fails for a modifier exactly if some component that it
does not read of a vector has been set, and names the first such component of the left
operand, or else of the right one.  Neither labels nor numbers matter for this, so that no
error about these comes before.  With operands of other shapes, modifiers do not matter. -/
theorem evaluate_eq_unsupported_iff (o : Operation)
    (hbuilt : ∀ m read, (m, read) ∈ o.reads → ∃ chain, m = .ofChain chain) :
    (∀ op, o.mistyped? = some op → o.evaluate = .error (.operandType op)) ∧
    (o.mistyped? = none →
      ((∃ keyword, o.evaluate = .error (.unsupportedModifier keyword)) ↔
        ∃ m read, (m, read) ∈ o.reads ∧ ∃ c, m.Sets c ∧ c ∉ read) ∧
      ∀ keyword, o.evaluate = .error (.unsupportedModifier keyword) ↔
        o.firstUnread? = some keyword) := by
  refine ⟨fun op ↦ evaluate_of_mistyped, fun htyped ↦ ?_⟩
  have hreads (p : Modifiers × List Modifiers.Component) (hp : p ∈ o.reads) :
      p.1.IncludesForMany := by
    obtain ⟨chain, hchain⟩ := hbuilt p.1 p.2 hp
    exact hchain ▸ Modifiers.includesForMany_ofChain chain
  obtain ⟨outcome, houtcome, heval⟩ := exists_evaluate_eq_checked htyped
  have hfirst (keyword : Keyword) :
      o.evaluate = .error (.unsupportedModifier keyword) ↔ o.firstUnread? = some keyword := by
    rw [heval]
    exact checked_eq_error_iff hreads houtcome keyword
  refine ⟨?_, hfirst⟩
  simp only [hfirst, ← isSome_firstUnread?_iff, Option.isSome_iff_exists]

/-- The numbers of the hosts divided by those of the processors, with modifiers. -/
def dividedByProcessors (chain : List Modifier) : Operation :=
  .arithmetic .divide true (.vector NestedLoop.hosts (.ofChain []))
    (.vector NestedLoop.processors (.ofChain chain))

/-- There are two processors of a host, but this is not found out where `bool` is not
read. -/
theorem evaluate_dividedByProcessors :
    (dividedByProcessors [.on ["host"]]).evaluate =
      .error (.duplicateLabelSet ⟨.ofPairs [("host", "h1")], .right⟩) ∧
    (∀ m read, (m, read) ∈ (dividedByProcessors [.returnBool, .on ["host"]]).reads →
      ∃ chain, m = .ofChain chain) ∧
    (dividedByProcessors [.returnBool, .on ["host"]]).evaluate =
      .error (.unsupportedModifier .returnBool) := by
  have hbuilt (m : Modifiers) (read : List Modifiers.Component)
      (h : (m, read) ∈ (dividedByProcessors [.returnBool, .on ["host"]]).reads) :
      ∃ chain, m = .ofChain chain := by
    rcases List.mem_cons.mp h with h | h
    · exact ⟨[], congrArg Prod.fst h⟩
    · exact ⟨_, congrArg Prod.fst (List.mem_singleton.mp h)⟩
  have hfirst := ((evaluate_eq_unsupported_iff _ hbuilt).2 rfl).2 .returnBool
  exact ⟨by decide +kernel, hbuilt, hfirst.mpr (by decide +kernel)⟩

end Operation

end VectorQuery
