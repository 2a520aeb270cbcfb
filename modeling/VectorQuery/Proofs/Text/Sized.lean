import Std.Data.String.ToNat
import VectorQuery.Text.Sized

/-!
# Sized texts

A sized text can be split off the front of any longer text: the digits end at the first
colon, they say how many bytes belong to the text, and the rest is left over.
-/

namespace VectorQuery.Text

/-- The characters of a sized text with what follows it: digits, a colon, and
the texts themselves. -/
theorem toList_sized_append (s rest : String) :
    (sized s ++ rest).toList =
      Nat.toDigits 10 s.utf8ByteSize ++ ':' :: (s ++ rest).toList := by
  simp [sized]

theorem colon_notMem_toDigits (n : Nat) : ':' ∉ Nat.toDigits 10 n := fun h ↦
  absurd (Nat.isDigit_of_mem_toDigits (by decide) (by decide) h) (by decide)

/-- What stands before the first occurrence of an element is determined. -/
theorem append_cons_inj {α : Type} {a : α} {xs ys us vs : List α} (hx : a ∉ xs)
    (hy : a ∉ ys) (h : xs ++ a :: us = ys ++ a :: vs) : xs = ys ∧ us = vs := by
  induction xs generalizing ys with
  | nil =>
      cases ys with
      | nil => exact ⟨rfl, List.tail_eq_of_cons_eq h⟩
      | cons y ys => exact absurd (.head ys) (List.head_eq_of_cons_eq h ▸ hy)
  | cons x xs ih =>
      cases ys with
      | nil => exact absurd (.head xs) (List.head_eq_of_cons_eq h ▸ hx)
      | cons y ys =>
          obtain ⟨rfl, htail⟩ := List.cons_eq_cons.mp h
          obtain ⟨rfl, hrest⟩ := ih (mt (.tail x) hx) (mt (.tail x) hy) htail
          exact ⟨rfl, hrest⟩

/-- Texts of the same number of bytes end at the same place. -/
theorem append_inj_of_utf8ByteSize {s t a b : String} (h : s ++ a = t ++ b)
    (hsize : s.utf8ByteSize = t.utf8ByteSize) : s = t ∧ a = b := by
  have hbytes : s.toByteArray ++ a.toByteArray = t.toByteArray ++ b.toByteArray := by
    simpa using congrArg String.toByteArray h
  have hst : s = t := String.toByteArray_inj.mp (ByteArray.append_inj_left hbytes hsize)
  subst hst
  exact ⟨rfl, (String.append_right_inj s).mp h⟩

/-- A sized text can be told from what follows it. -/
theorem sized_append_inj {s t a b : String} (h : sized s ++ a = sized t ++ b) :
    s = t ∧ a = b := by
  have hlist := congrArg String.toList h
  rw [toList_sized_append, toList_sized_append] at hlist
  -- the digits end at the first colon, and say where the text ends
  obtain ⟨hdigits, hrest⟩ :=
    append_cons_inj (colon_notMem_toDigits _) (colon_notMem_toDigits _) hlist
  refine append_inj_of_utf8ByteSize (String.toList_injective hrest) ?_
  exact Nat.repr_injective (by simp [Nat.repr_eq_ofList_toDigits, hdigits])

theorem sized_ne_empty (s : String) : sized s ≠ "" := by
  simp [sized]

end VectorQuery.Text
