import VectorQuery.Proofs.Text.Sized
import VectorQuery.Text.Quoted

/-!
# Quoted texts

A quoted text can be split off the front of any longer text.  A character is written for
itself, unless it is a quotation mark or a backslash, as a letter behind a backslash, or as
hexadecimal digits between braces; so what is written first tells the character and where
the next one starts, and a quotation mark where a character could start is the closing one.
-/

namespace VectorQuery.Text.Quoted

/-! ## Hexadecimal digits -/

theorem digitChar_inj {m n : Nat} (hm : m < 16) (hn : n < 16)
    (h : m.digitChar = n.digitChar) : m = n := by
  have hall : ∀ m < 16, ∀ n < 16, m.digitChar = n.digitChar → m = n := by decide
  exact hall m hm n hn h

/-- By induction on the number, digit by digit from the last one. -/
theorem toDigits_inj {m n : Nat} (h : Nat.toDigits 16 m = Nat.toDigits 16 n) : m = n := by
  induction m using Nat.strongRecOn generalizing n with
  | ind m ih =>
      rw [Nat.toDigits_eq_if (by decide), Nat.toDigits_eq_if (n := n) (by decide)] at h
      split at h
      case isTrue hm =>
        split at h
        case isTrue hn => exact digitChar_inj hm hn (List.singleton_inj.mp h)
        case isFalse hn =>
          exact absurd (List.append_eq_singleton_iff.mp h.symm) (by simp [Nat.toDigits_ne_nil])
      case isFalse hm =>
        split at h
        case isTrue hn =>
          exact absurd (List.append_eq_singleton_iff.mp h) (by simp [Nat.toDigits_ne_nil])
        case isFalse hn =>
          obtain ⟨hfront, hlast⟩ := List.append_inj' h rfl
          have hdiv : m / 16 = n / 16 := ih (m / 16) (by omega) hfront
          have hmod : m % 16 = n % 16 :=
            digitChar_inj (Nat.mod_lt m (by decide)) (Nat.mod_lt n (by decide))
              (List.singleton_inj.mp hlast)
          omega

theorem brace_notMem_toDigits (n : Nat) : '\x7d' ∉ Nat.toDigits 16 n := by
  have hdigit : ∀ d < 16, '\x7d' ≠ d.digitChar := by decide
  induction n using Nat.strongRecOn with
  | ind n ih =>
      rw [Nat.toDigits_eq_if (by decide)]
      split
      case isTrue hn => exact mt List.mem_singleton.mp (hdigit n hn)
      case isFalse hn =>
        intro h
        rcases List.mem_append.mp h with hfront | hlast
        · exact ih (n / 16) (by omega) hfront
        · exact hdigit (n % 16) (Nat.mod_lt n (by decide)) (List.mem_singleton.mp hlast)

/-- The digits of a code point end at the closing brace. -/
theorem codePoint_append_inj {c d : Char} {a b : List Char}
    (h : codePoint c ++ a = codePoint d ++ b) : c = d ∧ a = b := by
  simp only [codePoint, List.cons_append, List.append_assoc, List.nil_append, List.cons.injEq,
    true_and] at h
  obtain ⟨hdigits, hrest⟩ :=
    append_cons_inj (brace_notMem_toDigits _) (brace_notMem_toDigits _) h
  exact ⟨Char.toNat_inj.mp (toDigits_inj hdigits), hrest⟩

/-! ## Single characters -/

/-- The characters with a letter of their own. -/
def letters : List (Char × Char) :=
  [('\x00', '0'), ('\t', 't'), ('\r', 'r'), ('\n', 'n'), ('"', '"'), ('\\', '\\')]

/-- The three ways in which a character is written. -/
inductive Written (c : Char) : List Char → Prop where
  | letter {l : Char} (h : (c, l) ∈ letters) : Written c ['\\', l]
  | codePoint : Written c (codePoint c)
  | self (hquote : c ≠ '"') (hbackslash : c ≠ '\\') : Written c [c]

theorem written_encodeChar (c : Char) : Written c (encodeChar c) := by
  unfold encodeChar
  split
  case h_7 hquote hbackslash =>
    split
    · exact .codePoint
    · exact .self hquote hbackslash
  all_goals exact .letter (by decide)

theorem letter_inj {c d l : Char} (hc : (c, l) ∈ letters) (hd : (d, l) ∈ letters) : c = d := by
  have hall : ∀ p ∈ letters, ∀ q ∈ letters, p.2 = q.2 → p.1 = q.1 := by decide
  exact hall _ hc _ hd rfl

theorem ne_u_of_mem_letters {c l : Char} (h : (c, l) ∈ letters) : l ≠ 'u' := by
  have hall : ∀ p ∈ letters, p.2 ≠ 'u' := by decide
  exact hall _ h

/-- What is written for a character can be told from what follows it. -/
theorem Written.append_inj {c d : Char} {x y a b : List Char} (hx : Written c x)
    (hy : Written d y) (h : x ++ a = y ++ b) : c = d ∧ a = b := by
  cases hx with
  | letter hl =>
      cases hy with
      | letter hl' =>
          simp only [List.cons_append, List.nil_append, List.cons.injEq, true_and] at h
          obtain ⟨rfl, hrest⟩ := h
          exact ⟨letter_inj hl hl', hrest⟩
      | codePoint =>
          have hu := List.head_eq_of_cons_eq (List.tail_eq_of_cons_eq h)
          exact absurd hu (ne_u_of_mem_letters hl)
      | self _ hbackslash => exact absurd (List.head_eq_of_cons_eq h).symm hbackslash
  | codePoint =>
      cases hy with
      | letter hl =>
          have hu := List.head_eq_of_cons_eq (List.tail_eq_of_cons_eq h)
          exact absurd hu.symm (ne_u_of_mem_letters hl)
      | codePoint => exact codePoint_append_inj h
      | self _ hbackslash => exact absurd (List.head_eq_of_cons_eq h).symm hbackslash
  | self _ hbackslash =>
      cases hy with
      | letter | codePoint => exact absurd (List.head_eq_of_cons_eq h) hbackslash
      | self => exact List.cons_eq_cons.mp h

/-- No character is written with a quotation mark in front. -/
theorem Written.append_ne_quote {c : Char} {x a b : List Char} (hx : Written c x) :
    x ++ a ≠ '"' :: b := by
  intro h
  cases hx with
  | letter | codePoint => exact absurd (List.head_eq_of_cons_eq h) (by decide)
  | self hquote => exact hquote (List.head_eq_of_cons_eq h)

/-! ## Texts -/

/-- By induction on the characters: they end where a quotation mark stands in place of
another one. -/
theorem flatMap_append_inj {cs ds a b : List Char}
    (h : cs.flatMap encodeChar ++ '"' :: a = ds.flatMap encodeChar ++ '"' :: b) :
    cs = ds ∧ a = b := by
  induction cs generalizing ds with
  | nil =>
      cases ds with
      | nil => exact ⟨rfl, List.tail_eq_of_cons_eq h⟩
      | cons d ds =>
          rw [List.flatMap_cons, List.append_assoc] at h
          exact absurd h.symm (written_encodeChar d).append_ne_quote
  | cons c cs ih =>
      rw [List.flatMap_cons, List.append_assoc] at h
      cases ds with
      | nil => exact absurd h (written_encodeChar c).append_ne_quote
      | cons d ds =>
          rw [List.flatMap_cons, List.append_assoc] at h
          obtain ⟨rfl, htail⟩ := (written_encodeChar c).append_inj (written_encodeChar d) h
          obtain ⟨rfl, hrest⟩ := ih htail
          exact ⟨rfl, hrest⟩

/-- A quoted text can be told from what follows it. -/
theorem encode_append_inj {s t : String} {a b : List Char}
    (h : (encode s).toList ++ a = (encode t).toList ++ b) : s = t ∧ a = b := by
  simp only [encode, String.toList_ofList, List.cons_append, List.append_assoc,
    List.nil_append, List.cons.injEq, true_and] at h
  obtain ⟨hchars, hrest⟩ := flatMap_append_inj h
  exact ⟨String.toList_injective hchars, hrest⟩

end VectorQuery.Text.Quoted
