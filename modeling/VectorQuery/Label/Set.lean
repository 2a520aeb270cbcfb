import VectorQuery.Text.Quoted

/-!
# Label sets

A label set identifies a time series.  It has one value for each of finitely
many names, kept as a list of pairs in increasing order of the names, so that
two label sets with the same content are equal however they were put together.
Names are ordered by their code points.

What is done with a label set is done with its pairs: a name is looked up by
halving them, and pairs that do not change are not put together anew.
-/

namespace VectorQuery

namespace LabelSet

/-! ## Stored pairs -/

/-- The pairs with one more, in place of the pair of the same name if there is
one. -/
def insertPair (name value : String) : List (String × String) → List (String × String)
  | [] => [(name, value)]
  | p :: ps =>
      if name < p.1 then (name, value) :: p :: ps
      else if name = p.1 then (name, value) :: ps
      else p :: insertPair name value ps

theorem mem_insertPair {name value : String} {q : String × String}
    {ps : List (String × String)} (h : q ∈ insertPair name value ps) :
    q = (name, value) ∨ q ∈ ps := by
  induction ps with
  | nil => simpa [insertPair] using h
  | cons p ps ih =>
      rw [insertPair] at h
      split at h
      · simpa using h
      · split at h
        · simp only [List.mem_cons] at h ⊢
          exact h.imp_right .inr
        · simp only [List.mem_cons] at h ⊢
          rcases h with h | h
          · exact .inr (.inl h)
          · exact (ih h).imp_right .inr

theorem insertPair_sorted (name value : String) {ps : List (String × String)}
    (h : ps.Pairwise (·.1 < ·.1)) :
    (insertPair name value ps).Pairwise (·.1 < ·.1) := by
  induction ps with
  | nil => simp [insertPair]
  | cons p ps ih =>
      obtain ⟨hp, hps⟩ := List.pairwise_cons.mp h
      rw [insertPair]
      split
      · rename_i hlt
        refine List.pairwise_cons.mpr ⟨fun q hq ↦ ?_, h⟩
        rcases List.mem_cons.mp hq with rfl | hq
        · exact hlt
        · exact String.lt_trans hlt (hp q hq)
      · split
        · rename_i heq
          exact List.pairwise_cons.mpr ⟨fun q hq ↦ heq ▸ hp q hq, hps⟩
        · rename_i hnlt hne
          refine List.pairwise_cons.mpr ⟨fun q hq ↦ ?_, ih hps⟩
          rcases mem_insertPair hq with rfl | hq
          · refine Decidable.byContradiction fun h ↦ hne ?_
            exact String.le_antisymm (String.not_lt.mp h) (String.not_lt.mp hnlt)
          · exact hp q hq

/-- Pairs put in one by one; of several values for a name the last one stays. -/
def insertAll (pairs stored : List (String × String)) : List (String × String) :=
  pairs.foldl (fun stored p ↦ insertPair p.1 p.2 stored) stored

theorem insertAll_sorted (pairs : List (String × String)) {stored : List (String × String)}
    (h : stored.Pairwise (·.1 < ·.1)) : (insertAll pairs stored).Pairwise (·.1 < ·.1) := by
  induction pairs generalizing stored with
  | nil => exact h
  | cons p pairs ih => exact ih (insertPair_sorted p.1 p.2 h)

/-- The value under a name in pairs in the order of their names: the pair in the middle
tells on which side of it to go on. -/
def search? (name : String) (ps : List (String × String)) : Option String :=
  match _h : ps.drop (ps.length / 2) with
  | [] => none
  | (middle, value) :: larger =>
      if name = middle then some value
      else if name < middle then search? name (ps.take (ps.length / 2))
      else search? name larger
termination_by ps.length
decreasing_by
  · have hlength := congrArg List.length _h
    simp only [List.length_drop, List.length_cons] at hlength
    rw [List.length_take]
    omega
  · have hlength := congrArg List.length _h
    simp only [List.length_drop, List.length_cons] at hlength
    omega

/-- The stored pairs with those of the labels `names` that are stored elsewhere.  They are
not put in anew if there are no names. -/
def includeStored (stored other : List (String × String)) (names : List String) :
    List (String × String) :=
  if names.isEmpty then stored
  else
    names.foldl
      (fun stored name ↦
        match search? name other with
        | some value => insertPair name value stored
        | none => stored)
      (insertAll stored [])

theorem includeStored_sorted {stored other : List (String × String)}
    (h : stored.Pairwise (·.1 < ·.1)) (names : List String) :
    (includeStored stored other names).Pairwise (·.1 < ·.1) := by
  rw [includeStored]
  split
  · exact h
  · refine List.foldlRecOn names _ (insertAll_sorted stored .nil) fun stored h name _ ↦ ?_
    split
    · exact insertPair_sorted _ _ h
    · exact h

end LabelSet

/-! ## Label sets -/

/-- Finitely many labels, at most one for each name. -/
structure LabelSet where
  pairs : List (String × String)
  sorted : pairs.Pairwise (·.1 < ·.1)
deriving DecidableEq

namespace LabelSet

/-- The label set without labels. -/
def empty : LabelSet := ⟨[], .nil⟩

instance : EmptyCollection LabelSet := ⟨empty⟩
instance : Inhabited LabelSet := ⟨empty⟩

/-- The label set of any pairs; of several values for a name the last one
counts. -/
def ofPairs (pairs : List (String × String)) : LabelSet :=
  ⟨insertAll pairs [], insertAll_sorted pairs .nil⟩

/-- The value of the label `name`, if there is one. -/
def get? (s : LabelSet) (name : String) : Option String :=
  search? name s.pairs

def contains (s : LabelSet) (name : String) : Bool :=
  (s.get? name).isSome

def size (s : LabelSet) : Nat := s.pairs.length

def isEmpty (s : LabelSet) : Bool := s.pairs.isEmpty

/-- The label set with those of the labels `names` that `other` has, at the
values they have there. -/
def withIncluded (s other : LabelSet) (names : List String) : LabelSet :=
  ⟨includeStored s.pairs other.pairs names, includeStored_sorted s.sorted names⟩

/-- The labels as they are shown in messages: `name="value"` for each, between
braces. -/
def toText (s : LabelSet) : String :=
  "\x7b" ++
    ", ".intercalate (s.pairs.map fun (name, value) ↦
      name ++ "=" ++ Text.Quoted.encode value) ++
    "\x7d"

end LabelSet

end VectorQuery
