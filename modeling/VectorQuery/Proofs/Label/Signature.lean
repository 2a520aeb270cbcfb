import Std.Data.TreeSet
import VectorQuery.Label.Signature
import VectorQuery.Proofs.Label.Set
import VectorQuery.Proofs.Text.Sized

/-!
# Signatures identify what a filter keeps

A signature is a sequence of sized texts, each of which can be split off the
front.  Read pair by pair, it therefore gives back the labels that it was made
of, and two signatures are the same text exactly if the same labels are kept.
-/

namespace VectorQuery

namespace Signature

/-! ## Lists of labels -/

@[simp] theorem text_ofPairs_nil : (ofPairs []).text = "" := rfl

theorem text_ofPairs_cons (p : String × String) (ps : List (String × String)) :
    (ofPairs (p :: ps)).text =
      Text.sized p.1 ++ (Text.sized p.2 ++ (ofPairs ps).text) := by
  simp [ofPairs, String.append_assoc]

theorem text_ofPairs_cons_ne_empty (p : String × String) (ps : List (String × String)) :
    (ofPairs (p :: ps)).text ≠ "" := by
  rw [text_ofPairs_cons, Ne, String.append_eq_empty_iff]
  exact fun h ↦ Text.sized_ne_empty p.1 h.1

/-- No two lists of labels are written as the same text. -/
theorem text_ofPairs_inj {ps qs : List (String × String)}
    (h : (ofPairs ps).text = (ofPairs qs).text) : ps = qs := by
  induction ps generalizing qs with
  | nil =>
      cases qs with
      | nil => rfl
      | cons q qs => exact absurd h.symm (text_ofPairs_cons_ne_empty q qs)
  | cons p ps ih =>
      cases qs with
      | nil => exact absurd h (text_ofPairs_cons_ne_empty p ps)
      | cons q qs =>
          rw [text_ofPairs_cons, text_ofPairs_cons] at h
          obtain ⟨hname, h⟩ := Text.sized_append_inj h
          obtain ⟨hvalue, h⟩ := Text.sized_append_inj h
          rw [Prod.ext hname hvalue, ih h]

end Signature

namespace LabelSet

/-! ## Label sets -/

theorem mem_project_pairs {s : LabelSet} {f : LabelFilter} {name value : String} :
    (name, value) ∈ (s.project f).pairs ↔ (name, value) ∈ s.pairs ∧ f.keeps name := by
  simp [pairs_project]

/-- Signatures are equal exactly if the projections are. -/
theorem signature_inj {s t : LabelSet} {f g : LabelFilter} :
    s.signature f = t.signature g ↔ s.project f = t.project g := by
  constructor
  · intro h
    exact eq_of_pairs_eq (Signature.text_ofPairs_inj (congrArg Signature.text h))
  · intro h
    rw [signature, signature, h]

/-- Over all labels, a signature stands for the label set. -/
@[simp] theorem signature_all_inj {s t : LabelSet} :
    s.signature .all = t.signature .all ↔ s = t := by
  rw [signature_inj, project_all, project_all]

end LabelSet

/-! ## Sets of signatures -/

namespace Signature

/-- The set holds the signatures of the label sets `done`, and no others. -/
def Records (found : Std.TreeSet Signature) (done : List LabelSet) : Prop :=
  ∀ labels : LabelSet, found.contains (labels.signature .all) ↔ labels ∈ done

theorem records_empty : Records ∅ [] := by
  intro labels
  simp

theorem Records.insert {found : Std.TreeSet Signature} {done : List LabelSet}
    (h : Records found done) (new : LabelSet) :
    Records (found.insert (new.signature .all)) (done ++ [new]) := by
  intro labels
  rw [Std.TreeSet.contains_insert, Bool.or_eq_true, beq_iff_eq, Std.compare_eq_iff_eq,
    LabelSet.signature_all_inj, h labels, List.mem_append, List.mem_singleton, or_comm, eq_comm]

end Signature

namespace LabelSet

/-! ## The text of a signature -/

/-- The text of a signature identifies the labels that are kept, with a filter
on either side or without one: it is the same text exactly if the same pairs of
name and value are kept, and exactly if the projections are equal. -/
theorem signature_text_eq_iff (s t : LabelSet) (f g : Option LabelFilter) :
    ((s.signature (f.getD .all)).text = (t.signature (g.getD .all)).text ↔
      ∀ name value,
        ((name, value) ∈ s.pairs ∧ ∀ filter ∈ f, filter.keeps name) ↔
          ((name, value) ∈ t.pairs ∧ ∀ filter ∈ g, filter.keeps name)) ∧
    ((s.signature (f.getD .all)).text = (t.signature (g.getD .all)).text ↔
      f.elim s s.project = g.elim t t.project) := by
  have hkept (u : LabelSet) (h : Option LabelFilter) (name value : String) :
      (name, value) ∈ (u.project (h.getD .all)).pairs ↔
        (name, value) ∈ u.pairs ∧ ∀ filter ∈ h, filter.keeps name := by
    cases h <;> simp [mem_project_pairs]
  have hproject (u : LabelSet) (h : Option LabelFilter) :
      u.project (h.getD .all) = h.elim u u.project := by
    cases h <;> simp
  have htext : (s.signature (f.getD .all)).text = (t.signature (g.getD .all)).text ↔
      s.project (f.getD .all) = t.project (g.getD .all) :=
    ⟨fun h ↦ eq_of_pairs_eq (Signature.text_ofPairs_inj h),
      fun h ↦ congrArg Signature.text (signature_inj.mpr h)⟩
  refine ⟨?_, by rw [htext, hproject, hproject]⟩
  rw [htext]
  constructor
  · intro h name value
    rw [← hkept, ← hkept, h]
  · intro h
    refine eq_of_mem_iff fun ⟨name, value⟩ ↦ ?_
    rw [hkept, hkept]
    exact h name value

end LabelSet

end VectorQuery
