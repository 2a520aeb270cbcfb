import Mathlib.Data.List.TakeWhile
import VectorQuery.Proofs.Json.StringText

/-!
# Texts in tokens

A text is written in tokens if these stand in it one behind the other, with any blanks
before, between and behind them, each number or literal name as long as its characters go
on.  The tokens of a text are those it is written in.
-/

namespace VectorQuery.Json.Token

open StringText (Spells exists_scan_of_spells exists_spells_of_scan)

/-- The tokens that a text is written in. -/
inductive Written : List Token → List Char → Prop
  | nil : Written [] []
  | blank {c : Char} {tokens : List Token} {text : List Char} (hc : isBlank c)
      (h : Written tokens text) : Written tokens (c :: text)
  | char {c : Char} {token : Token} {tokens : List Token} {text : List Char}
      (hc : ofChar? c = some token) (h : Written tokens text) :
      Written (token :: tokens) (c :: text)
  | string {s : String} {spelled : List Char} {tokens : List Token} {text : List Char}
      (hs : Spells spelled s.toList) (h : Written tokens text) :
      Written (.string s :: tokens) ('"' :: spelled ++ '"' :: text)
  | word {c : Char} {token : Token} {word : List Char} {tokens : List Token} {text : List Char}
      (hword : ofWord? (c :: word) = some token) (hchars : ∀ d ∈ c :: word, isWordChar d)
      (hends : ∀ d ∈ text.head?, ¬ isWordChar d) (h : Written tokens text) :
      Written (token :: tokens) (c :: word ++ text)

theorem Written.blanks {blanks text : List Char} {tokens : List Token}
    (hblanks : ∀ c ∈ blanks, isBlank c) (h : Written tokens text) :
    Written tokens (blanks ++ text) := by
  induction blanks with
  | nil => exact h
  | cons c blanks ih =>
      rw [List.forall_mem_cons] at hblanks
      exact .blank hblanks.1 (ih hblanks.2)

/-! ## The characters that tokens start with -/

theorem isBlank_iff {c : Char} : isBlank c ↔ c = ' ' ∨ c = '\t' ∨ c = '\n' ∨ c = '\r' := by
  simp [isBlank, or_assoc]

theorem not_isBlank_of_ofChar? {c : Char} {token : Token} (h : ofChar? c = some token) :
    ¬ isBlank c := by
  rw [isBlank_iff]
  rintro (rfl | rfl | rfl | rfl) <;> cases h

theorem not_isBlank_of_isWordChar {c : Char} (h : isWordChar c) : ¬ isBlank c := by
  rw [isBlank_iff]
  rintro (rfl | rfl | rfl | rfl) <;> cases h

theorem ofChar?_of_isWordChar {c : Char} (h : isWordChar c) : ofChar? c = none := by
  unfold ofChar?
  split <;> first | rfl | cases h

/-! ## Cutting -/

theorem lex?_blank {c : Char} (hc : isBlank c) (text : List Char) :
    lex? (c :: text) = lex? text := by
  rw [lex?, if_pos hc]

theorem lex?_char {c : Char} {token : Token} (hc : ofChar? c = some token)
    (text : List Char) : lex? (c :: text) = (lex? text).map (token :: ·) := by
  rw [lex?, if_neg (not_isBlank_of_ofChar? hc), hc]

theorem lex?_string {s : String} {spelled : List Char} (hs : Spells spelled s.toList)
    (text : List Char) :
    lex? ('"' :: spelled ++ '"' :: text) = (lex? text).map (.string s :: ·) := by
  obtain ⟨pieces, hscan, hchars⟩ := exists_scan_of_spells hs text
  have htoken : StringText.token pieces = .string s := by
    simp only [StringText.token, hchars, String.ofList_toList]
  rw [List.cons_append, lex?, if_neg (by decide), if_pos rfl]
  simp only [show ofChar? '"' = none from rfl]
  split
  · rename_i hscan'
    cases hscan.symm.trans hscan'
  · rename_i hscan'
    obtain ⟨rfl, rfl⟩ : pieces = _ ∧ text = _ := by simpa using hscan.symm.trans hscan'
    rw [htoken]

theorem takeWhile_of_head? {p : Char → Bool} {text : List Char} (h : ∀ d ∈ text.head?, ¬ p d) :
    text.takeWhile p = [] := by
  cases text with
  | nil => rfl
  | cons d text => exact List.takeWhile_cons_of_neg (h d rfl)

theorem dropWhile_of_head? {p : Char → Bool} {text : List Char} (h : ∀ d ∈ text.head?, ¬ p d) :
    text.dropWhile p = text := by
  cases text with
  | nil => rfl
  | cons d text => exact List.dropWhile_cons_of_neg (h d rfl)

theorem lex?_word {c : Char} {token : Token} {word text : List Char}
    (hword : ofWord? (c :: word) = some token) (hchars : ∀ d ∈ c :: word, isWordChar d)
    (hends : ∀ d ∈ text.head?, ¬ isWordChar d) :
    lex? (c :: word ++ text) = (lex? text).map (token :: ·) := by
  rw [List.forall_mem_cons] at hchars
  have htake : (word ++ text).takeWhile isWordChar = word := by
    rw [List.takeWhile_append_of_pos hchars.2, takeWhile_of_head? hends, List.append_nil]
  have hdrop : (word ++ text).dropWhile isWordChar = text := by
    rw [List.dropWhile_append_of_pos hchars.2, dropWhile_of_head? hends]
  have hquote : c ≠ '"' := by
    rintro rfl
    exact absurd hchars.1 (by decide)
  rw [List.cons_append, lex?, if_neg (not_isBlank_of_isWordChar hchars.1),
    ofChar?_of_isWordChar hchars.1]
  simp only
  rw [if_neg hquote, if_pos hchars.1, htake, hdrop, hword]

theorem lex?_of_written {tokens : List Token} {text : List Char} (h : Written tokens text) :
    lex? text = some tokens := by
  induction h with
  | nil => rw [lex?]
  | blank hc _ ih => rw [lex?_blank hc, ih]
  | char hc _ ih => rw [lex?_char hc, ih, Option.map_some]
  | string hs _ ih => rw [lex?_string hs, ih, Option.map_some]
  | word hword hchars hends _ ih => rw [lex?_word hword hchars hends, ih, Option.map_some]

theorem written_of_lex? {tokens : List Token} {text : List Char} (h : lex? text = some tokens)
    (hreadable : .unreadableString ∉ tokens) : Written tokens text := by
  fun_induction lex? text generalizing tokens with
  | case1 =>
      obtain rfl : [] = tokens := by simpa using h
      exact .nil
  | case2 c text hc ih => exact .blank hc (ih h hreadable)
  | case3 c text _ token hc ih =>
      obtain ⟨tokens, hlex, rfl⟩ := Option.map_eq_some_iff.mp h
      exact .char hc (ih hlex (List.not_mem_of_not_mem_cons hreadable))
  | case4 | case6 | case8 => cases h
  | case5 text pieces rest hscan _ _ ih =>
      obtain ⟨tokens, hlex, rfl⟩ := Option.map_eq_some_iff.mp h
      rw [List.mem_cons, not_or] at hreadable
      unfold StringText.token at hreadable ⊢
      split at hreadable
      · rename_i s hchars
        obtain ⟨spelled, hs, rfl⟩ := exists_spells_of_scan hscan hchars
        exact .string (by rwa [String.toList_ofList]) (ih hlex hreadable.2)
      · exact absurd rfl hreadable.1
  | case7 c text _ _ _ hc token hword ih =>
      obtain ⟨tokens, hlex, rfl⟩ := Option.map_eq_some_iff.mp h
      rw [← List.takeWhile_append_dropWhile (p := isWordChar) (l := text), ← List.cons_append]
      refine .word hword ?_ ?_ (ih hlex (List.not_mem_of_not_mem_cons hreadable))
      · rw [List.forall_mem_cons]
        exact ⟨hc, fun d hd ↦ List.mem_takeWhile_imp hd⟩
      · intro d hd
        have hends := List.head?_dropWhile_not isWordChar text
        rw [Option.mem_def.mp hd] at hends
        simpa using hends

end VectorQuery.Json.Token
