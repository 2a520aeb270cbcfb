import Mathlib.Data.List.Sort
import Mathlib.Data.String.Basic
import VectorQuery.Label.Filter

/-!
# Label sets by name

A label set is a finite function from names to values, and `get?` is that
function: two label sets with the same values are equal.  What an operation
does is therefore said by what `get?` finds afterwards.
-/

namespace VectorQuery

theorem lookup_cons_eq_ite (name : String) (p : String × String)
    (ps : List (String × String)) :
    (p :: ps).lookup name = if name = p.1 then some p.2 else ps.lookup name := by
  rw [List.lookup_cons]
  by_cases h : name = p.1
  · simp [h]
  · simp [h, beq_false_of_ne h]

/-- In a list with one pair for each name, the pairs are those that `lookup`
finds. -/
theorem lookup_eq_some_iff_mem {ps : List (String × String)}
    (h : ps.Pairwise (·.1 ≠ ·.1)) {name value : String} :
    ps.lookup name = some value ↔ (name, value) ∈ ps := by
  induction ps with
  | nil => simp
  | cons p ps ih =>
      obtain ⟨hp, hps⟩ := List.pairwise_cons.mp h
      rw [lookup_cons_eq_ite, List.mem_cons, Prod.ext_iff]
      by_cases hn : name = p.1
      · have hnot : (p.1, value) ∉ ps := fun hm ↦ hp _ hm rfl
        simp [hn, hnot, eq_comm]
      · simp [hn, ih hps]

namespace LabelSet

/-! ## Looking names up -/

theorem lookup_eq_none_of_ne {name : String} {ps : List (String × String)}
    (h : ∀ p ∈ ps, name ≠ p.1) : ps.lookup name = none :=
  List.lookup_eq_none_iff.mpr fun p hp ↦ bne_iff_ne.mpr (h p hp)

/-- The pairs on the side that is left out have other names. -/
theorem lookup_of_middle {name middle value : String} {smaller larger : List (String × String)}
    (h : (smaller ++ (middle, value) :: larger).Pairwise (·.1 < ·.1)) :
    (smaller ++ (middle, value) :: larger).lookup name =
      if name = middle then some value
      else if name < middle then smaller.lookup name
      else larger.lookup name := by
  obtain ⟨-, hlarger, hsmaller⟩ := List.pairwise_append.mp h
  have hbelow (p : String × String) (hp : p ∈ smaller) : p.1 < middle :=
    hsmaller p hp _ List.mem_cons_self
  have habove (p : String × String) (hp : p ∈ larger) : middle < p.1 :=
    (List.pairwise_cons.mp hlarger).1 p hp
  rw [List.lookup_append, lookup_cons_eq_ite]
  split
  · rename_i hname
    have hnone : smaller.lookup name = none :=
      lookup_eq_none_of_ne fun p hp ↦ hname ▸ (hbelow p hp).ne'
    rw [hnone, Option.none_or]
  · rename_i hname
    split
    · rename_i hlt
      have hnone : larger.lookup name = none :=
        lookup_eq_none_of_ne fun p hp ↦ (hlt.trans (habove p hp)).ne
      rw [hnone, Option.or_none]
    · rename_i hnlt
      have hlt : middle < name := lt_of_le_of_ne (not_lt.mp hnlt) (Ne.symm hname)
      have hnone : smaller.lookup name = none :=
        lookup_eq_none_of_ne fun p hp ↦ ((hbelow p hp).trans hlt).ne'
      rw [hnone, Option.none_or]

/-- In pairs in the order of their names, halving finds what a search from the front does. -/
theorem search?_eq_lookup {name : String} {ps : List (String × String)}
    (h : ps.Pairwise (·.1 < ·.1)) : search? name ps = ps.lookup name := by
  induction hlength : ps.length using Nat.strongRecOn generalizing ps with
  | ind n ih =>
      subst hlength
      rw [search?]
      split
      · rename_i hdrop
        have hlength := congrArg List.length hdrop
        simp only [List.length_drop, List.length_nil] at hlength
        obtain rfl : ps = [] := List.eq_nil_of_length_eq_zero (by omega)
        rfl
      · rename_i middle value larger hdrop
        have hps := List.take_append_drop (ps.length / 2) ps
        have hlength := congrArg List.length hdrop
        simp only [List.length_drop, List.length_cons] at hlength
        rw [hdrop] at hps
        rw [← hps] at h
        obtain ⟨hsmaller, hlarger, -⟩ := List.pairwise_append.mp h
        conv_rhs => rw [← hps, lookup_of_middle h]
        rw [ih _ (by rw [List.length_take]; omega) hsmaller rfl,
          ih _ (by omega) (List.pairwise_cons.mp hlarger).2 rfl]

variable {s t : LabelSet}

theorem get?_eq_lookup (s : LabelSet) (name : String) : s.get? name = s.pairs.lookup name :=
  search?_eq_lookup s.sorted

theorem pairs_pairwise_ne (s : LabelSet) : s.pairs.Pairwise (·.1 ≠ ·.1) :=
  s.sorted.imp fun {p q} h (heq : p.1 = q.1) ↦ String.lt_irrefl q.1 (heq ▸ h)

theorem get?_eq_some_iff {name value : String} :
    s.get? name = some value ↔ (name, value) ∈ s.pairs := by
  rw [get?_eq_lookup, lookup_eq_some_iff_mem s.pairs_pairwise_ne]

/-! ## Equality -/

theorem eq_of_pairs_eq (h : s.pairs = t.pairs) : s = t := by
  cases s
  cases t
  simpa using h

/-- The order of the names leaves no choice of how to list the pairs. -/
theorem eq_of_mem_iff (h : ∀ p, p ∈ s.pairs ↔ p ∈ t.pairs) : s = t := by
  have : Std.Irrefl fun p q : String × String ↦ p.1 < q.1 :=
    ⟨fun p ↦ String.lt_irrefl p.1⟩
  have : Std.Antisymm fun p q : String × String ↦ p.1 < q.1 :=
    ⟨fun _ _ h₁ h₂ ↦ absurd h₁ (String.lt_asymm h₂)⟩
  exact eq_of_pairs_eq (s.sorted.eq_of_mem_iff t.sorted h)

@[ext] theorem ext_get? (h : ∀ name, s.get? name = t.get? name) : s = t := by
  refine eq_of_mem_iff fun ⟨name, value⟩ ↦ ?_
  rw [← get?_eq_some_iff, ← get?_eq_some_iff, h name]

/-! ## Operations -/

@[simp] theorem get?_empty (name : String) : (∅ : LabelSet).get? name = none :=
  get?_eq_lookup ∅ name

theorem lookup_insertPair (name value n : String) (ps : List (String × String)) :
    (insertPair name value ps).lookup n =
      if n = name then some value else ps.lookup n := by
  induction ps with
  | nil => simp [insertPair]
  | cons p ps ih =>
      rw [insertPair]
      split
      · rw [lookup_cons_eq_ite]
      · split
        · rename_i hp
          by_cases h : n = name <;> simp [lookup_cons_eq_ite, h, ← hp]
        · rename_i hp
          rw [lookup_cons_eq_ite, lookup_cons_eq_ite, ih]
          by_cases h : n = name <;> simp [h, hp]

/-- Of the pairs that are put in, those for a name come in front of those that are there. -/
theorem lookup_insertAll (pairs stored : List (String × String)) (n : String) :
    (insertAll pairs stored).lookup n = (pairs.reverse.lookup n).or (stored.lookup n) := by
  induction pairs generalizing stored with
  | nil => rfl
  | cons p pairs ih =>
      have hfold : insertAll (p :: pairs) stored = insertAll pairs (insertPair p.1 p.2 stored) :=
        rfl
      rw [hfold, ih, List.reverse_cons, List.lookup_append, Option.or_assoc, lookup_insertPair,
        lookup_cons_eq_ite]
      by_cases h : n = p.1 <;> simp [h]

/-- A filter that keeps every label need not be applied. -/
theorem keepStored_eq_filter (f : LabelFilter) (stored : List (String × String)) :
    keepStored f stored = stored.filter (f.keeps ·.1) := by
  rw [keepStored]
  split
  · rename_i hnoop
    rw [List.filter_eq_self.mpr fun p _ ↦ LabelFilter.keeps_of_isNoop hnoop p.1]
  · rfl

theorem pairs_project (s : LabelSet) (f : LabelFilter) :
    (s.project f).pairs = s.pairs.filter (f.keeps ·.1) :=
  keepStored_eq_filter f s.pairs

theorem get?_project (s : LabelSet) (f : LabelFilter) (n : String) :
    (s.project f).get? n = if f.keeps n then s.get? n else none := by
  ext value
  rw [get?_eq_some_iff, pairs_project]
  by_cases h : f.keeps n <;> simp [h, get?_eq_some_iff]

/-- Label sets of which a filter leaves the same have the same of what it keeps. -/
theorem get?_eq_of_project_eq {f : LabelFilter} (h : s.project f = t.project f) {n : String}
    (hn : f.keeps n = true) : s.get? n = t.get? n := by
  have hget : (s.project f).get? n = (t.project f).get? n := by rw [h]
  rwa [get?_project, get?_project, if_pos hn, if_pos hn] at hget

/-- A filter that keeps every label is no projection, and need not be applied. -/
theorem project_of_isNoop (s : LabelSet) {f : LabelFilter} (h : f.isNoop = true) :
    s.project f = s := by
  ext n : 1
  rw [get?_project, LabelFilter.keeps_of_isNoop h, if_pos rfl]

@[simp] theorem project_all (s : LabelSet) : s.project .all = s :=
  s.project_of_isNoop rfl

/-- Of several values for a name the last one is found. -/
theorem get?_ofPairs (ps : List (String × String)) (n : String) :
    (ofPairs ps).get? n = ps.reverse.lookup n := by
  rw [get?_eq_lookup, ofPairs, lookup_insertAll, List.lookup_nil, Option.or_none]

/-- The value is that of the last of the pairs with the name. -/
def IsLastValue (ps : List (String × String)) (name value : String) : Prop :=
  ∃ before after, ps = before ++ (name, value) :: after ∧ ∀ p ∈ after, p.1 ≠ name

theorem get?_ofPairs_eq_some_iff {ps : List (String × String)} (name value : String) :
    (ofPairs ps).get? name = some value ↔ IsLastValue ps name value := by
  rw [get?_ofPairs, List.lookup_eq_some_iff]
  constructor
  · rintro ⟨after, before, hps, hafter⟩
    refine ⟨before.reverse, after.reverse, ?_, fun p hp ↦ ?_⟩
    · rw [← List.reverse_inj, hps]
      simp
    · exact (bne_iff_ne.mp (hafter p (List.mem_reverse.mp hp))).symm
  · rintro ⟨before, after, rfl, hafter⟩
    refine ⟨after.reverse, before.reverse, by simp, fun p hp ↦ ?_⟩
    exact bne_iff_ne.mpr (hafter p (List.mem_reverse.mp hp)).symm

theorem lookup_reverse_of_sorted {ps : List (String × String)} (h : ps.Pairwise (·.1 ≠ ·.1))
    (n : String) : ps.reverse.lookup n = ps.lookup n := by
  have hreverse : ps.reverse.Pairwise (·.1 ≠ ·.1) :=
    List.pairwise_reverse.mpr (h.imp Ne.symm)
  ext value
  rw [lookup_eq_some_iff_mem hreverse, List.mem_reverse, lookup_eq_some_iff_mem h]

/-- A label set is that of its own pairs. -/
theorem ofPairs_pairs (s : LabelSet) : ofPairs s.pairs = s := by
  ext name : 1
  rw [get?_ofPairs, lookup_reverse_of_sorted s.pairs_pairwise_ne, get?_eq_lookup]

theorem insertAll_pairs (s : LabelSet) : insertAll s.pairs [] = s.pairs :=
  congrArg LabelSet.pairs s.ofPairs_pairs

/-- What is stored for a name is taken over from elsewhere if it is one of `names`. -/
theorem lookup_includeStored (s other : LabelSet) (names : List String) (n : String) :
    (includeStored s.pairs other.pairs names).lookup n =
      if n ∈ names then (other.get? n).or (s.pairs.lookup n) else s.pairs.lookup n := by
  rw [includeStored]
  split
  · rename_i hnames
    simp [List.isEmpty_iff.mp hnames]
  · rw [insertAll_pairs]
    generalize s.pairs = stored
    clear * -
    induction names generalizing stored with
    | nil => simp
    | cons name names ih =>
        rw [List.foldl_cons, ih, ← get?]
        cases h : other.get? name with
        | none =>
            by_cases hn : n = name
            · simp [hn, h]
            · simp [hn]
        | some value =>
            by_cases hn : n = name
            · simp [hn, h, lookup_insertPair]
            · simp [hn, lookup_insertPair]

theorem get?_withIncluded (s other : LabelSet) (names : List String) (n : String) :
    (s.withIncluded other names).get? n =
      if n ∈ names then (other.get? n).or (s.get? n) else s.get? n := by
  rw [get?_eq_lookup, withIncluded, lookup_includeStored, get?_eq_lookup s]

/-! ## Overriding -/

/-- The labels of `s`, with those of `names` that `other` has as `other` has
them. -/
def overridden (s other : LabelSet) (names : List String) : LabelSet :=
  .ofPairs (s.pairs ++ other.pairs.filter (·.1 ∈ names))

theorem get?_overridden (s other : LabelSet) (names : List String) (n : String) :
    (s.overridden other names).get? n =
      if n ∈ names then (other.get? n).or (s.get? n) else s.get? n := by
  have hdistinct := other.pairs_pairwise_ne.filter (·.1 ∈ names)
  have hfilter : (other.pairs.filter (·.1 ∈ names)).lookup n =
      if n ∈ names then other.get? n else none := by
    ext value
    rw [lookup_eq_some_iff_mem hdistinct]
    by_cases h : n ∈ names <;> simp [h, get?_eq_some_iff]
  rw [overridden, get?_ofPairs, List.reverse_append, List.lookup_append,
    lookup_reverse_of_sorted hdistinct, hfilter, lookup_reverse_of_sorted s.pairs_pairwise_ne,
    ← get?_eq_lookup]
  by_cases h : n ∈ names <;> simp [h]

/-- A label that both have in common is not changed by overriding. -/
theorem get?_overridden_of_get?_eq {s other : LabelSet} {names : List String} {n : String}
    (h : s.get? n = other.get? n) : (s.overridden other names).get? n = s.get? n := by
  rw [get?_overridden, ← h, Option.or_self, ite_self]

/-- A label set is determined by what it is overridden to, if the names of the labels
taken over are names that it has in common with the other label set, or does not
have. -/
theorem eq_of_overridden_eq {s t o u : LabelSet} {f : LabelFilter} {names : List String}
    (hs : s.project f = o.project f) (ht : t.project f = u.project f)
    (hnames : ∀ n ∈ names, f.keeps n = true ∨ s.get? n = none ∧ t.get? n = none)
    (h : s.overridden o names = t.overridden u names) : s = t := by
  ext n : 1
  have hget : (s.overridden o names).get? n = (t.overridden u names).get? n := by rw [h]
  by_cases hn : n ∈ names
  · rcases hnames n hn with hkept | ⟨hsn, htn⟩
    · rwa [get?_overridden_of_get?_eq (get?_eq_of_project_eq hs hkept),
        get?_overridden_of_get?_eq (get?_eq_of_project_eq ht hkept)] at hget
    · rw [hsn, htn]
  · rwa [get?_overridden, get?_overridden, if_neg hn, if_neg hn] at hget

/-- Taking labels over one by one comes to the same as overriding. -/
theorem withIncluded_eq_overridden (s other : LabelSet) (names : List String) :
    s.withIncluded other names = s.overridden other names := by
  ext n : 1
  rw [get?_withIncluded, get?_overridden]

end LabelSet

end VectorQuery
