import Mathlib.Data.List.Induction
import Mathlib.Data.List.Nodup
import VectorQuery.Aggregate
import VectorQuery.Proofs.Label.Signature

/-!
# Groups of an aggregation

An aggregation partitions the samples of a vector.  There is a group for each of
the label sets that the filter leaves on the samples, in the order in which these
first appear, and its numbers are those of the samples with these labels, in the
order of the vector.  What carries this through the loop is `Gathers`: after some
samples, the gathering holds their groups, and it finds for a signature the place
of the labels that it stands for.
-/

namespace VectorQuery

/-! ## First occurrences -/

section FirstOccurrences

variable {α : Type} [DecidableEq α]

theorem eraseDups_concat (xs : List α) (x : α) :
    (xs ++ [x]).eraseDups = if x ∈ xs then xs.eraseDups else xs.eraseDups ++ [x] := by
  rw [List.eraseDups_append]
  split
  · rename_i h
    simp [List.removeAll, h]
  · rename_i h
    simp [List.removeAll, h, List.eraseDups_cons]

/-- Without repetitions, elements come in the order of their first occurrences. -/
theorem pairwise_idxOf_eraseDups (xs : List α) :
    xs.eraseDups.Pairwise (xs.idxOf · < xs.idxOf ·) := by
  induction xs using List.reverseRecOn with
  | nil => simp
  | append_singleton xs x ih =>
      have hearlier {y : α} (hy : y ∈ xs.eraseDups) : (xs ++ [x]).idxOf y = xs.idxOf y := by
        rw [List.idxOf_append, if_pos (List.mem_eraseDups.mp hy)]
      have hpairwise : xs.eraseDups.Pairwise ((xs ++ [x]).idxOf · < (xs ++ [x]).idxOf ·) := by
        refine ih.imp_of_mem fun hy hz h ↦ ?_
        rwa [hearlier hy, hearlier hz]
      rw [eraseDups_concat]
      split
      · exact hpairwise
      · rename_i hx
        refine List.pairwise_append.mpr ⟨hpairwise, List.pairwise_singleton _ _, ?_⟩
        intro y hy z hz
        obtain rfl := List.mem_singleton.mp hz
        rw [hearlier hy, List.idxOf_append, if_neg hx]
        have hlt := List.idxOf_lt_length_of_mem (List.mem_eraseDups.mp hy)
        omega

theorem nodup_eraseDups (xs : List α) : xs.eraseDups.Nodup := by
  refine (pairwise_idxOf_eraseDups xs).imp fun h heq ↦ ?_
  rw [heq] at h
  exact Nat.lt_irrefl _ h

theorem idxOf?_concat {xs : List α} {x : α} (hx : x ∉ xs) (y : α) :
    (xs ++ [x]).idxOf? y = if x = y then some xs.length else xs.idxOf? y := by
  induction xs with
  | nil => simp [List.idxOf?_cons]
  | cons z xs ih =>
      obtain ⟨hxz, hx⟩ := not_or.mp (List.mem_cons.not.mp hx)
      rw [List.cons_append, List.idxOf?_cons, List.idxOf?_cons, ih hx]
      by_cases hzy : z = y
      · subst hzy
        simp [hxz]
      · by_cases hxy : x = y <;> simp [hzy, hxy]

/-- Changing what stands at the place of an element of a list without
repetitions. -/
theorem modify_map_eq {β : Type} {xs : List α} (hxs : xs.Nodup) {x : α} {place : Nat}
    (h : xs.idxOf? x = some place) (g : α → β) (change : β → β) :
    (xs.map g).modify place change =
      xs.map fun y ↦ if y = x then change (g y) else g y := by
  induction xs generalizing place with
  | nil => simp at h
  | cons y xs ih =>
      obtain ⟨hy, hxs⟩ := List.nodup_cons.mp hxs
      rw [List.idxOf?_cons] at h
      by_cases hyx : y = x
      · subst hyx
        obtain rfl : 0 = place := by simpa using h
        have hrest (z : α) (hz : z ∈ xs) : (if z = y then change (g z) else g z) = g z :=
          if_neg fun heq : z = y ↦ hy (heq ▸ hz)
        simp [List.map_congr_left hrest]
      · rw [if_neg (by simpa using hyx)] at h
        obtain ⟨rest, hrest, rfl⟩ := Option.map_eq_some_iff.mp h
        simp [hyx, ih hxs hrest]

end FirstOccurrences

/-! ## The groups of samples -/

namespace Group

variable (f : LabelFilter) (samples : List Sample)

/-- The label sets that samples are grouped by, each once, in the order in which
they first appear. -/
def keys : List LabelSet := (samples.map (·.labels.project f)).eraseDups

/-- The samples of the group with some labels, in order. -/
def members (labels : LabelSet) : List Sample := samples.filter (·.labels.project f = labels)

/-- The numbers of the group with some labels. -/
def numbers (labels : LabelSet) : List Float := (members f samples labels).map (·.value)

/-- The groups of samples. -/
def ofSamples : List Group :=
  (keys f samples).map fun labels ↦ ⟨labels, numbers f samples labels⟩

theorem nodup_keys : (keys f samples).Nodup := nodup_eraseDups _

variable {f samples}

theorem mem_keys {labels : LabelSet} :
    labels ∈ keys f samples ↔ ∃ s ∈ samples, s.labels.project f = labels := by
  rw [keys, List.mem_eraseDups, List.mem_map]

theorem mem_members {labels : LabelSet} {s : Sample} :
    s ∈ members f samples labels ↔ s ∈ samples ∧ s.labels.project f = labels := by
  simp [members]

theorem keys_concat (s : Sample) :
    keys f (samples ++ [s]) =
      if s.labels.project f ∈ keys f samples then keys f samples
      else keys f samples ++ [s.labels.project f] := by
  simp only [keys, List.map_append, List.map_singleton, eraseDups_concat,
    List.mem_eraseDups]

theorem numbers_concat (s : Sample) (labels : LabelSet) :
    numbers f (samples ++ [s]) labels =
      if labels = s.labels.project f then numbers f samples labels ++ [s.value]
      else numbers f samples labels := by
  by_cases h : labels = s.labels.project f
  · simp [numbers, members, h]
  · simp [numbers, members, h, Ne.symm h]

/-- Before its first sample, a group has no numbers. -/
theorem numbers_eq_nil {labels : LabelSet} (h : labels ∉ keys f samples) :
    numbers f samples labels = [] := by
  rw [numbers, List.map_eq_nil_iff, List.eq_nil_iff_forall_not_mem]
  exact fun s hs ↦ h (mem_keys.mpr ⟨s, mem_members.mp hs⟩)

end Group

/-! ## Gathering samples -/

namespace Gathering

open VectorQuery.Group

variable {f : LabelFilter} {samples : List Sample} {g : Gathering}

/-- The gathering holds the groups of the samples, and finds each of them by the
signature of its labels. -/
structure Gathers (f : LabelFilter) (samples : List Sample) (g : Gathering) : Prop where
  groups_eq : g.groups.toList = ofSamples f samples
  places_eq (labels : LabelSet) :
    g.places[labels.signature .all]? = (keys f samples).idxOf? labels

theorem gathers_nil (f : LabelFilter) : Gathers f [] {} where
  groups_eq := rfl
  places_eq labels := by simp [keys]

theorem getElem?_insert_place (places : Std.TreeMap Signature Nat) (new labels : LabelSet)
    (place : Nat) :
    (places.insert (new.signature .all) place)[labels.signature .all]? =
      if new = labels then some place else places[labels.signature .all]? := by
  simp [Std.TreeMap.getElem?_insert]

/-- A number whose labels have a group goes to the end of that group. -/
theorem Gathers.add_known (h : Gathers f samples g) {s : Sample}
    (hs : s.labels.project f ∈ keys f samples) :
    Gathers f (samples ++ [s]) (g.add (s.labels.project f) s.value) := by
  have hlabels : keys f (samples ++ [s]) = keys f samples := by
    rw [keys_concat, if_pos hs]
  obtain ⟨place, hplace⟩ :
      ∃ place, (keys f samples).idxOf? (s.labels.project f) = some place :=
    Option.ne_none_iff_exists'.mp fun hnone ↦ List.idxOf?_eq_none_iff.mp hnone hs
  have hadd : g.add (s.labels.project f) s.value =
      { g with groups := g.groups.modify place (·.add s.value) } := by
    rw [add, h.places_eq, hplace]
  rw [hadd]
  refine ⟨?_, fun labels ↦ by rw [hlabels, ← h.places_eq]⟩
  rw [Array.toList_modify, h.groups_eq, ofSamples, modify_map_eq (nodup_keys f samples) hplace,
    ofSamples, hlabels]
  refine List.map_congr_left fun labels _ ↦ ?_
  rw [numbers_concat]
  split <;> rfl

/-- A number whose labels have no group begins one at the end. -/
theorem Gathers.add_new (h : Gathers f samples g) {s : Sample}
    (hs : s.labels.project f ∉ keys f samples) :
    Gathers f (samples ++ [s]) (g.add (s.labels.project f) s.value) := by
  have hlabels : keys f (samples ++ [s]) =
      keys f samples ++ [s.labels.project f] := by
    rw [keys_concat, if_neg hs]
  have hsize : g.groups.size = (keys f samples).length := by
    rw [← Array.length_toList, h.groups_eq, ofSamples, List.length_map]
  have hadd : g.add (s.labels.project f) s.value =
      { groups := g.groups.push ⟨s.labels.project f, [s.value]⟩
        places := g.places.insert ((s.labels.project f).signature .all) g.groups.size } := by
    rw [add, h.places_eq, List.idxOf?_eq_none_iff.mpr hs]
  rw [hadd]
  constructor
  · have hnew : numbers f (samples ++ [s]) (s.labels.project f) = [s.value] := by
      rw [numbers_concat, if_pos rfl, numbers_eq_nil hs, List.nil_append]
    have hold (labels : LabelSet) (hmem : labels ∈ keys f samples) :
        numbers f (samples ++ [s]) labels = numbers f samples labels := by
      rw [numbers_concat, if_neg (ne_of_mem_of_not_mem hmem hs)]
    rw [Array.toList_push, h.groups_eq, ofSamples, ofSamples, hlabels, List.map_append,
      List.map_singleton, hnew]
    congr 1
    exact List.map_congr_left fun labels hmem ↦ by rw [hold labels hmem]
  · intro labels
    rw [getElem?_insert_place, h.places_eq, hlabels, idxOf?_concat hs, hsize]

theorem Gathers.add (h : Gathers f samples g) (s : Sample) :
    Gathers f (samples ++ [s]) (g.add (s.labels.project f) s.value) := by
  by_cases hs : s.labels.project f ∈ keys f samples
  · exact h.add_known hs
  · exact h.add_new hs

/-- Gathering further samples, by induction on these. -/
theorem Gathers.foldl (h : Gathers f samples g) (more : List Sample) :
    Gathers f (samples ++ more)
      (more.foldl (fun g s ↦ g.add (s.labels.project f) s.value) g) := by
  induction more generalizing samples g with
  | nil => simpa using h
  | cons s more ih =>
      rw [List.foldl_cons, List.append_cons]
      exact ih (h.add s)

end Gathering

theorem Group.reduceAll_eq (reduce : List Float → Float) (groups : List Group) :
    reduceAll reduce groups =
      (groups.map (·.values), groups.map fun g ↦ ⟨g.labels, reduce g.values⟩) := by
  induction groups with
  | nil => rfl
  | cons g groups ih => rw [reduceAll, ih, List.map_cons, List.map_cons]

namespace InstantVector

theorem aggregateRun_eq (v : InstantVector) (g : Grouping) (reduce : List Float → Float) :
    v.aggregateRun g reduce =
      if g.isUngrouped then ⟨[v.values], .scalar (reduce v.values)⟩
      else ⟨(v.groups g.filter).map (·.values),
        .vector ⟨v.time, (v.groups g.filter).map fun group ↦
          ⟨group.labels, reduce group.values⟩⟩⟩ := by
  rw [aggregateRun, Group.reduceAll_eq]

theorem groups_eq_ofSamples (v : InstantVector) (f : LabelFilter) :
    v.groups f = Group.ofSamples f v.samples :=
  ((Gathering.gathers_nil f).foldl v.samples).groups_eq

/-- No label set has two groups. -/
theorem nodup_groups (v : InstantVector) (f : LabelFilter) :
    ((v.groups f).map (·.labels)).Nodup := by
  rw [groups_eq_ofSamples, Group.ofSamples, List.map_map]
  simpa [Function.comp_def] using Group.nodup_keys f v.samples

end InstantVector

end VectorQuery
