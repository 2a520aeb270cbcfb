import VectorQuery.Codec.Label
import VectorQuery.Proofs.Label.Set
import VectorQuery.Proofs.Text.ByteOrder
import VectorQuery.Vector

/-!
# Label sets as they are stored

The pairs of a label set are stored in the order of the bytes of their names.  Nothing
checks the order when they are used: to look a name up, the pairs are halved again and
again, and equal label sets have to be equal lists.  So the order has to come from the ways
in which label sets are made, one from another; here these are followed on the stored pairs
alone, shortcuts included.
-/

namespace VectorQuery.LabelSet

/-! ## Stored pairs -/

/-- What is stored of the label sets that can be made. -/
inductive Stored : List (String × String) → Prop where
  | ofPairs (pairs : List (String × String)) : Stored (insertAll pairs [])
  | ofRows {time : Instant} {rows : List (List (String × String) × Float)} {sample : Sample}
      (h : sample ∈ (InstantVector.ofRows time rows).samples) : Stored sample.labels.pairs
  | ofJson {j : Json} {s : LabelSet} (h : ofJson? j = some s) : Stored s.pairs
  | project {stored : List (String × String)} (h : Stored stored) (f : LabelFilter) :
      Stored (keepStored f stored)
  | withIncluded {stored other : List (String × String)} (h : Stored stored)
      (hother : Stored other) (names : List String) :
      Stored (includeStored stored other names)

/-! ## The order of stored pairs -/

theorem exists_ofPairs_of_ofJson? {j : Json} {s : LabelSet} (h : ofJson? j = some s) :
    ∃ pairs, s = ofPairs pairs := by
  simp only [ofJson?, Option.bind_eq_bind, Option.bind_eq_some_iff] at h
  obtain ⟨fields, -, pairs, -, hs⟩ := h
  exact ⟨pairs, (Option.some.inj hs).symm⟩

theorem exists_ofPairs_of_mem_ofRows {time : Instant}
    {rows : List (List (String × String) × Float)} {sample : Sample}
    (h : sample ∈ (InstantVector.ofRows time rows).samples) :
    ∃ pairs, sample.labels = ofPairs pairs := by
  obtain ⟨row, -, rfl⟩ := List.mem_map.mp h
  exact ⟨row.1, rfl⟩

/-- By induction on how the label set has been made: each step keeps the order. -/
theorem Stored.sorted {stored : List (String × String)} (h : Stored stored) :
    stored.Pairwise (·.1 < ·.1) := by
  induction h with
  | ofPairs pairs => exact insertAll_sorted pairs .nil
  | ofRows h =>
      obtain ⟨pairs, hpairs⟩ := exists_ofPairs_of_mem_ofRows h
      rw [hpairs]
      exact insertAll_sorted pairs .nil
  | ofJson h =>
      obtain ⟨pairs, rfl⟩ := exists_ofPairs_of_ofJson? h
      exact insertAll_sorted pairs .nil
  | project _ f ih => exact keepStored_sorted f ih
  | withIncluded _ _ names ih => exact includeStored_sorted ih names

/-- The label sets are those that can be made. -/
theorem stored_iff {stored : List (String × String)} :
    Stored stored ↔ ∃ s : LabelSet, s.pairs = stored := by
  constructor
  · exact fun h ↦ ⟨⟨stored, h.sorted⟩, rfl⟩
  · rintro ⟨s, rfl⟩
    rw [← insertAll_pairs s]
    exact .ofPairs s.pairs

/-! ## Stored pairs and what is found in them -/

theorem withIncluded_congr (s other : LabelSet) {names names' : List String}
    (h : ∀ name, name ∈ names ↔ name ∈ names') :
    s.withIncluded other names = s.withIncluded other names' := by
  ext name : 1
  rw [get?_withIncluded, get?_withIncluded]
  simp only [h name]

/-- What is stored of the label sets that can be made, one from another, is in the order of
the bytes of the names, and label sets are just that.  Their operations are those on what is
stored, with the shortcuts, and a name is found by halving.  What is found tells label sets
apart, and it is what they have: the last value given for a name, the values of names that a
filter keeps, and those of included names from elsewhere, in whatever order and however often
these are named. -/
theorem stored_sorted_and_found :
    ((∀ stored, Stored stored → stored.Pairwise (Text.bytes ·.1 < Text.bytes ·.1)) ∧
      ∀ stored, Stored stored ↔ ∃ s : LabelSet, s.pairs = stored) ∧
    ((∀ pairs, (ofPairs pairs).pairs = insertAll pairs []) ∧
      (∀ (s : LabelSet) f, (s.project f).pairs = keepStored f s.pairs) ∧
      (∀ (s other : LabelSet) names,
        (s.withIncluded other names).pairs = includeStored s.pairs other.pairs names) ∧
      ∀ (s : LabelSet) name, s.get? name = search? name s.pairs) ∧
    ((∀ s t : LabelSet, s = t ↔ ∀ name, s.get? name = t.get? name) ∧
      ∀ (s : LabelSet) name value, s.get? name = some value ↔ (name, value) ∈ s.pairs) ∧
    (∀ pairs name value, (ofPairs pairs).get? name = some value ↔
      IsLastValue pairs name value) ∧
    (∀ (s : LabelSet) f name,
      (s.project f).get? name = if f.keeps name then s.get? name else none) ∧
    (∀ (s other : LabelSet) names name, (s.withIncluded other names).get? name =
      if name ∈ names ∧ (other.get? name).isSome then other.get? name else s.get? name) ∧
    ∀ (s other : LabelSet) names names', (∀ name, name ∈ names ↔ name ∈ names') →
      s.withIncluded other names = s.withIncluded other names' := by
  refine ⟨⟨fun stored h ↦ h.sorted.imp Text.lt_iff_bytes_lt.mp, fun stored ↦ stored_iff⟩,
    ⟨fun _ ↦ rfl, fun _ _ ↦ rfl, fun _ _ _ ↦ rfl, fun _ _ ↦ rfl⟩,
    ⟨fun s t ↦ ⟨fun h name ↦ h ▸ rfl, ext_get?⟩, fun s name value ↦ get?_eq_some_iff⟩,
    fun pairs ↦ get?_ofPairs_eq_some_iff, get?_project, fun s other names name ↦ ?_,
    fun s other names names' ↦ withIncluded_congr s other⟩
  rw [get?_withIncluded]
  cases other.get? name <;> by_cases hname : name ∈ names <;> simp [hname]

/-- Labels in no order, with two values for one name. -/
def zonePairs : List (String × String) :=
  [("zone", "z1"), ("höhe", "2"), ("host", "h1"), ("zone", "z2")]

/-- Without the host, and with the values that another label set has, the order is kept. -/
theorem stored_zonePairs :
    Stored (includeStored (keepStored ⟨["host"], false⟩ (insertAll zonePairs []))
      (insertAll [("dc", "oslo"), ("höhe", "3")] []) ["höhe", "rack", "dc"]) ∧
    List.Pairwise (Text.bytes ·.1 < Text.bytes ·.1)
      [("dc", "oslo"), ("höhe", "3"), ("zone", "z2")] ∧
    (∀ name, name ∈ ["höhe", "dc"] ↔ name ∈ ["dc", "höhe", "dc"]) ∧
    (ofPairs zonePairs).withIncluded (ofPairs [("dc", "oslo")]) ["höhe", "dc"] =
      (ofPairs zonePairs).withIncluded (ofPairs [("dc", "oslo")]) ["dc", "höhe", "dc"] := by
  have hstored : Stored (includeStored (keepStored ⟨["host"], false⟩ (insertAll zonePairs []))
      (insertAll [("dc", "oslo"), ("höhe", "3")] []) ["höhe", "rack", "dc"]) :=
    .withIncluded (.project (.ofPairs _) _) (.ofPairs _) _
  have hpairs : includeStored (keepStored ⟨["host"], false⟩ (insertAll zonePairs []))
      (insertAll [("dc", "oslo"), ("höhe", "3")] []) ["höhe", "rack", "dc"] =
      [("dc", "oslo"), ("höhe", "3"), ("zone", "z2")] := by
    decide +kernel
  have hnames : ∀ name, name ∈ ["höhe", "dc"] ↔ name ∈ ["dc", "höhe", "dc"] := by
    intro name
    simp only [List.mem_cons, List.not_mem_nil, or_false]
    tauto
  obtain ⟨⟨hsorted, -⟩, -, -, -, -, -, hincluded⟩ := stored_sorted_and_found
  exact ⟨hstored, hpairs ▸ hsorted _ hstored, hnames, hincluded _ _ _ _ hnames⟩

end VectorQuery.LabelSet
