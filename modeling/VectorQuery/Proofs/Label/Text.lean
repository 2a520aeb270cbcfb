import VectorQuery.Error
import VectorQuery.Proofs.Label.Set
import VectorQuery.Proofs.Text.Quoted

/-!
# The text of a label set

A label set can be told from its text, and from a message with this text in it, if its
names are free of `=`.  A name then ends at the first `=`, the value is quoted and ends with
its closing quotation mark, and a comma or a brace behind that tells whether there is
another label.

Names are written as they are.  So with `=` in a name there can be two label sets of the
same text.
-/

namespace VectorQuery

namespace LabelSet

/-! ## Texts of labels -/

/-- The text of a label. -/
def labelText (p : String × String) : List Char :=
  p.1.toList ++ '=' :: (Text.Quoted.encode p.2).toList

/-- The text of the labels after the first one. -/
def laterText (ps : List (String × String)) : List Char :=
  ps.flatMap fun p ↦ ',' :: ' ' :: labelText p

/-- The text of some labels. -/
def labelsText : List (String × String) → List Char
  | [] => []
  | p :: ps => labelText p ++ laterText ps

theorem intercalate_labelText (ps : List (String × String)) :
    [',', ' '].intercalate (ps.map labelText) = labelsText ps := by
  induction ps with
  | nil => rfl
  | cons p ps ih =>
      cases ps with
      | nil => simp [labelsText, laterText]
      | cons q qs =>
          rw [List.map_cons, List.map_cons, List.intercalate_cons_cons, ← List.map_cons, ih]
          simp [labelsText, laterText]

theorem toText_eq (s : LabelSet) :
    s.toText = "\x7b" ++
      ", ".intercalate (s.pairs.map fun p ↦ p.1 ++ "=" ++ Text.Quoted.encode p.2) ++ "\x7d" :=
  rfl

theorem toList_toText (s : LabelSet) :
    s.toText.toList = '\x7b' :: labelsText s.pairs ++ ['\x7d'] := by
  have hlabels : (s.pairs.map fun p ↦ p.1 ++ "=" ++ Text.Quoted.encode p.2).map String.toList =
      s.pairs.map labelText := by
    simp [labelText, Function.comp_def]
  rw [toText_eq, String.toList_append, String.toList_append, String.toList_intercalate, hlabels,
    show ", ".toList = [',', ' '] from rfl, intercalate_labelText]
  rfl

/-! ## Texts are different -/

/-- There is no `=` in the names. -/
def EqualsFree (ps : List (String × String)) : Prop := ∀ p ∈ ps, '=' ∉ p.1.toList

variable {p q : String × String} {ps qs : List (String × String)} {a b : List Char}

theorem equalsFree_cons : EqualsFree (p :: ps) ↔ '=' ∉ p.1.toList ∧ EqualsFree ps :=
  List.forall_mem_cons

/-- The text of a label can be told from what follows it. -/
theorem labelText_append_inj (hp : '=' ∉ p.1.toList) (hq : '=' ∉ q.1.toList)
    (h : labelText p ++ a = labelText q ++ b) : p = q ∧ a = b := by
  rw [labelText, labelText, List.append_assoc, List.append_assoc] at h
  obtain ⟨hname, h⟩ := Text.append_cons_inj hp hq h
  obtain ⟨hvalue, hrest⟩ := Text.Quoted.encode_append_inj h
  exact ⟨Prod.ext (String.toList_injective hname) hvalue, hrest⟩

/-- By induction on the labels: as long as there is a comma, there is another one. -/
theorem laterText_append_inj (hps : EqualsFree ps) (hqs : EqualsFree qs)
    (h : laterText ps ++ '\x7d' :: a = laterText qs ++ '\x7d' :: b) : ps = qs ∧ a = b := by
  induction ps generalizing qs with
  | nil =>
      cases qs with
      | nil => exact ⟨rfl, List.tail_eq_of_cons_eq h⟩
      | cons q qs => exact absurd (List.head_eq_of_cons_eq h) (by decide)
  | cons p ps ih =>
      cases qs with
      | nil => exact absurd (List.head_eq_of_cons_eq h) (by decide)
      | cons q qs =>
          rw [equalsFree_cons] at hps hqs
          simp only [laterText, List.flatMap_cons, List.cons_append, List.append_assoc,
            List.cons.injEq, true_and] at h
          rw [← laterText, ← laterText] at h
          obtain ⟨rfl, htail⟩ := labelText_append_inj hps.1 hqs.1 h
          obtain ⟨rfl, hrest⟩ := ih hps.2 hqs.2 htail
          exact ⟨rfl, hrest⟩

theorem eq_mem_labelsText_cons (p : String × String) (ps : List (String × String)) :
    '=' ∈ labelsText (p :: ps) := by
  simp [labelsText, labelText]

/-- If there is no `=` in what follows, the text of no labels is different as well. -/
theorem labelsText_append_inj (hps : EqualsFree ps) (hqs : EqualsFree qs) (ha : '=' ∉ a)
    (hb : '=' ∉ b) (h : labelsText ps ++ '\x7d' :: a = labelsText qs ++ '\x7d' :: b) :
    ps = qs ∧ a = b := by
  cases ps with
  | nil =>
      cases qs with
      | nil => exact ⟨rfl, List.tail_eq_of_cons_eq h⟩
      | cons q qs =>
          have hmem : '=' ∈ labelsText [] ++ '\x7d' :: a :=
            h ▸ List.mem_append_left _ (eq_mem_labelsText_cons q qs)
          exact absurd hmem (by simpa [labelsText] using ha)
  | cons p ps =>
      cases qs with
      | nil =>
          have hmem : '=' ∈ labelsText [] ++ '\x7d' :: b :=
            h ▸ List.mem_append_left _ (eq_mem_labelsText_cons p ps)
          exact absurd hmem (by simpa [labelsText] using hb)
      | cons q qs =>
          rw [equalsFree_cons] at hps hqs
          rw [labelsText, labelsText, List.append_assoc, List.append_assoc] at h
          obtain ⟨rfl, htail⟩ := labelText_append_inj hps.1 hqs.1 h
          obtain ⟨rfl, hrest⟩ := laterText_append_inj hps.2 hqs.2 htail
          exact ⟨rfl, hrest⟩

/-! ## Label sets and messages -/

variable {s t : LabelSet}

/-- What stands behind the text of the labels in a message. -/
def sideText (side : MatchSide) : String :=
  " on the " ++ side.name ++
    " side of vector matching: the matching labels must identify a single sample"

theorem equals_notMem_sideText (side : MatchSide) : '=' ∉ (sideText side).toList := by
  cases side <;> decide +kernel

theorem sideText_inj {side side' : MatchSide} (h : sideText side = sideText side') :
    side = side' := by
  have hname : side.name = side'.name :=
    (String.append_right_inj _).mp ((String.append_left_inj _).mp h)
  revert hname
  cases side <;> cases side' <;> decide

theorem message_eq (s : LabelSet) (side : MatchSide) :
    (EvalError.duplicateLabelSet ⟨s, side⟩).message =
      "Duplicate label set " ++ (s.toText ++ sideText side) := by
  have hassoc (a b c d e : String) : a ++ b ++ c ++ d ++ e = a ++ (b ++ (c ++ d ++ e)) := by
    simp only [String.append_assoc]
  exact hassoc _ _ _ _ _

theorem eq_of_toText_eq (hs : EqualsFree s.pairs) (ht : EqualsFree t.pairs)
    (h : s.toText = t.toText) : s = t := by
  have hlist := congrArg String.toList h
  rw [toList_toText, toList_toText, List.cons_append, List.cons_append] at hlist
  exact eq_of_pairs_eq (labelsText_append_inj hs ht List.not_mem_nil List.not_mem_nil
    (List.tail_eq_of_cons_eq hlist)).1

theorem eq_of_message_eq (hs : EqualsFree s.pairs) (ht : EqualsFree t.pairs)
    {side side' : MatchSide}
    (h : (EvalError.duplicateLabelSet ⟨s, side⟩).message =
      (EvalError.duplicateLabelSet ⟨t, side'⟩).message) : s = t ∧ side = side' := by
  rw [message_eq, message_eq] at h
  have hlist := congrArg String.toList ((String.append_right_inj _).mp h)
  rw [String.toList_append, String.toList_append, toList_toText, toList_toText] at hlist
  simp only [List.cons_append, List.append_assoc, List.nil_append] at hlist
  obtain ⟨hpairs, hside⟩ := labelsText_append_inj hs ht (equals_notMem_sideText side)
    (equals_notMem_sideText side') (List.tail_eq_of_cons_eq hlist)
  exact ⟨eq_of_pairs_eq hpairs, sideText_inj (String.toList_injective hside)⟩

/-- Two label sets without `=` in their names have the same text, and messages about them
are the same, only if they are equal; the messages also tell the side. -/
theorem toText_and_message_inj (hs : EqualsFree s.pairs) (ht : EqualsFree t.pairs) :
    (s.toText = t.toText ↔ s = t) ∧
    ∀ side side', (EvalError.duplicateLabelSet ⟨s, side⟩).message =
        (EvalError.duplicateLabelSet ⟨t, side'⟩).message ↔ s = t ∧ side = side' := by
  refine ⟨⟨eq_of_toText_eq hs ht, fun h ↦ congrArg toText h⟩, fun side side' ↦ ?_⟩
  refine ⟨eq_of_message_eq hs ht, ?_⟩
  rintro ⟨rfl, rfl⟩
  rfl

/-- A value with the text of a second label in it. -/
def dcWithHost : LabelSet := .ofPairs [("dc", "oslo\", host=\"h1")]

/-- Two labels. -/
def dcAndHost : LabelSet := .ofPairs [("dc", "oslo"), ("host", "h1")]

theorem toText_dcWithHost_ne :
    EqualsFree dcWithHost.pairs ∧ EqualsFree dcAndHost.pairs ∧
      dcWithHost.toText ≠ dcAndHost.toText ∧
      (EvalError.duplicateLabelSet ⟨dcWithHost, .left⟩).message ≠
        (EvalError.duplicateLabelSet ⟨dcAndHost, .left⟩).message := by
  have hs : EqualsFree dcWithHost.pairs := by
    unfold EqualsFree
    decide
  have ht : EqualsFree dcAndHost.pairs := by
    unfold EqualsFree
    decide
  have hne : dcWithHost ≠ dcAndHost := by decide
  obtain ⟨htext, hmessage⟩ := toText_and_message_inj hs ht
  exact ⟨hs, ht, mt htext.mp hne, fun h ↦ hne ((hmessage .left .left).mp h).1⟩

example : (ofPairs [("dc=\"oslo\", host", "h1")]).toText = dcAndHost.toText := by
  decide +kernel

end LabelSet

end VectorQuery
