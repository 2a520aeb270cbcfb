import VectorQuery.Proofs.Eval.Chains
import VectorQuery.Proofs.Operator.Unread

/-!
# Normal form of chains of modifiers

Modifiers come in four families, and of each family only the last one in a chain counts
(`Modifiers.ofChain_eq_ofLast`).  Two of the families share the record that says how
vectors are matched, but none changes what another one has set, so that the order among
families does not matter.
-/

namespace VectorQuery

namespace Modifier

/-- What a modifier is about: which labels are matched, on which side there may be many
samples, how samples are grouped, or whether comparisons yield 0 and 1. -/
inductive Family where
  | labels
  | sides
  | grouping
  | returnBool
deriving DecidableEq, Repr

def family : Modifier → Family
  | .on _ | .ignoring _ => .labels
  | .groupLeft _ | .groupRight _ => .sides
  | .byLabels _ | .withoutLabels _ => .grouping
  | .returnBool => .returnBool

theorem family_eq_returnBool_iff {m : Modifier} : m.family = .returnBool ↔ m = .returnBool := by
  cases m <;> simp [family]

/-- The last modifier of a family in a chain. -/
def lastOf? (chain : List Modifier) (family : Family) : Option Modifier :=
  (chain.filter (·.family = family)).getLast?

theorem lastOf?_concat (chain : List Modifier) (m : Modifier) :
    lastOf? (chain ++ [m]) = Function.update (lastOf? chain) m.family (some m) := by
  funext family
  rw [lastOf?, List.filter_append, Function.update_apply]
  by_cases h : m.family = family
  · simp [h]
  · simp [h, Ne.symm h, lastOf?]

theorem isSome_lastOf?_returnBool_iff {chain : List Modifier} :
    (lastOf? chain .returnBool).isSome ↔ .returnBool ∈ chain := by
  simp [lastOf?, family_eq_returnBool_iff]

/-! ## What a modifier sets -/

/-- The labels to match by, and whether these or all others are matched. -/
def labelsSet : Option Modifier → List String × Bool
  | some (.on labels) => (labels, true)
  | some (.ignoring labels) => (labels, false)
  | _ => ([], false)

/-- How many samples may match on either side, and the labels that are included. -/
def sidesSet : Option Modifier → Cardinality × List String
  | some (.groupLeft included) => (.manyToOne, included)
  | some (.groupRight included) => (.oneToMany, included)
  | _ => (.oneToOne, [])

def groupingSet : Option Modifier → Grouping
  | some (.byLabels labels) => ⟨labels, false⟩
  | some (.withoutLabels labels) => ⟨labels, true⟩
  | _ => {}

end Modifier

namespace Modifiers

open Modifier

/-- What is set up if these modifiers are the last ones of their families. -/
def ofLast (last? : Family → Option Modifier) : Modifiers where
  matching :=
    { cardinality := (sidesSet (last? .sides)).1
      labels := (labelsSet (last? .labels)).1
      on := (labelsSet (last? .labels)).2
      included := (sidesSet (last? .sides)).2 }
  grouping := groupingSet (last? .grouping)
  returnBool := (last? .returnBool).isSome

/-- One more modifier replaces the last one of its family, and nothing else. -/
theorem apply_ofLast (last? : Family → Option Modifier) (m : Modifier) :
    (ofLast last?).apply m = ofLast (Function.update last? m.family (some m)) := by
  cases m <;> rfl

/-- Of each family, only the last modifier counts. -/
theorem ofChain_eq_ofLast (chain : List Modifier) : ofChain chain = ofLast (lastOf? chain) := by
  induction chain using List.reverseRecOn with
  | nil => rfl
  | append_singleton chain m ih =>
      rw [ofChain, List.foldl_concat, ← ofChain, ih, apply_ofLast, lastOf?_concat]

/-! ## Keywords of a chain -/

variable {m : Modifiers}

theorem eq_empty_iff : m = {} ↔ ∀ c, ¬ m.Sets c := by
  constructor
  · rintro rfl c
    cases c <;> decide
  · intro h
    obtain ⟨matching, grouping, returnBool⟩ := m
    obtain rfl : matching = {} := not_not.mp (h .matching)
    obtain rfl : grouping = {} := not_not.mp (h .grouping)
    obtain rfl : returnBool = false := not_not.mp (h .returnBool)
    rfl

theorem keywords_eq_nil_iff (h : m.IncludesForMany) : m.keywords = [] ↔ m = {} := by
  rw [keywords_eq_map_filter h, List.map_eq_nil_iff, List.filter_eq_nil_iff, eq_empty_iff]
  simp [Component.mem_all]

/-- There is a keyword for each component at most. -/
theorem exists_keywords_sublist (h : m.IncludesForMany) :
    ∃ matching ∈ Keyword.matching, ∃ grouping ∈ Keyword.grouping,
      m.keywords.Sublist [matching, grouping, .returnBool] := by
  have hown (c : Component) : m.keywordOf c ∈ c.keywords := (keywordOf_mem_keywords_iff m).mpr rfl
  refine ⟨_, hown .matching, _, hown .grouping, ?_⟩
  rw [keywords_eq_map_filter h]
  exact List.filter_sublist.map m.keywordOf

end Modifiers

namespace Expr

variable {options : EvalOptions} {scope : Scope}

/-- Modifiers around a vector are applied from the inside out. -/
theorem evalOperand_modified {arg : Expr} {v : InstantVector} {modifiers : Modifiers}
    (h : arg.evalOperand options scope = .ok (.vector v modifiers)) (chain : List Modifier) :
    (modified chain arg).evalOperand options scope =
      .ok (.vector v (chain.foldl Modifiers.apply modifiers)) := by
  induction chain generalizing arg modifiers with
  | nil => exact h
  | cons m chain ih => exact ih (bind_eq_ok.mpr ⟨_, h, rfl⟩)

end Expr

namespace Modifiers

open Modifier

/-- What a chain of modifiers sets up is what the last modifier of each family sets, so that
chains with the same last modifiers set up the same.  Its keywords, of which there are none
exactly if nothing has been changed, are at most one for the matching, one for the grouping
and `bool`, in this order.  A vector with the chain around it is evaluated to that vector
with what the chain sets up, the innermost modifier first. -/
theorem ofChain_normalForm (chain : List Modifier) :
    (((ofChain chain).matching.labels, (ofChain chain).matching.on) =
        labelsSet (lastOf? chain .labels) ∧
      ((ofChain chain).matching.cardinality, (ofChain chain).matching.included) =
        sidesSet (lastOf? chain .sides) ∧
      (ofChain chain).grouping = groupingSet (lastOf? chain .grouping) ∧
      ((ofChain chain).returnBool = true ↔ .returnBool ∈ chain)) ∧
    (∀ other, (∀ family, lastOf? chain family = lastOf? other family) →
      ofChain chain = ofChain other) ∧
    ((ofChain chain).keywords = [] ↔ ofChain chain = {}) ∧
    (∃ matching ∈ Keyword.matching, ∃ grouping ∈ Keyword.grouping,
      (ofChain chain).keywords.Sublist [matching, grouping, .returnBool]) ∧
    ∀ options scope arg v, (∀ m inner, arg ≠ .modifier m inner) →
      arg.eval options scope = .ok (.vector v) →
      (Expr.modified chain arg).evalOperand options scope =
        .ok (.vector v (ofChain chain)) := by
  have hincludes := includesForMany_ofChain chain
  refine ⟨?_, ?_, keywords_eq_nil_iff hincludes, exists_keywords_sublist hincludes, ?_⟩
  · rw [ofChain_eq_ofLast]
    exact ⟨rfl, rfl, rfl, isSome_lastOf?_returnBool_iff⟩
  · intro other h
    rw [ofChain_eq_ofLast, ofChain_eq_ofLast, funext h]
  · intro options scope arg v hroot harg
    exact Expr.evalOperand_modified (Expr.evalOperand_eq_ofValue hroot harg) chain

example : ofChain [.ignoring ["env"], .groupLeft ["dc"], .on ["host"]] =
    ofChain [.groupRight [], .on ["host"], .groupLeft ["dc"]] := by
  decide

end Modifiers

end VectorQuery
