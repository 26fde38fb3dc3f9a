import MetaPostEditor.Proofs.Lines
import MetaPostEditor.Proofs.Rescanning

/-!
# Cutting texts apart

What is put together with separators is found again when it is cut at them, as long as no piece
holds a separator itself (`Text.split_intercalate`, `Text.words_intercalate`, `Text.cut?_append`).
A word that stands between separators may have white space around it and letters of either case
(`Text.Spells`).  It is recognised in spite of that (`Text.Spells.lower_trim`), and no separator
gets into it (`Text.Spells.notMem`).
-/

namespace MetaPostEditor

/-! ## White space -/

lemma Unicode.isWhiteSpace_of_visible {c : Char} (h : 33 ≤ c.toNat) (h' : c.toNat ≤ 126) :
    isWhiteSpace c = false := by
  have hrange : RangeTable.contains [(33, 126)] c.toNat = true := by
    simp [RangeTable.contains, h, h']
  exact RangeTable.contains_eq_false_of_apart (by decide) hrange

lemma Text.toNat_of_isDigit {c : Char} (h : c.isDigit = true) : 48 ≤ c.toNat ∧ c.toNat ≤ 57 := by
  rw [Char.isDigit, Bool.and_eq_true, decide_eq_true_eq, decide_eq_true_eq] at h
  exact ⟨UInt32.le_iff_toNat_le.1 h.1, UInt32.le_iff_toNat_le.1 h.2⟩

lemma Unicode.isWhiteSpace_of_isDigit {c : Char} (h : c.isDigit = true) :
    isWhiteSpace c = false := by
  obtain ⟨hge, hle⟩ := Text.toNat_of_isDigit h
  exact isWhiteSpace_of_visible (by omega) (by omega)

lemma Unicode.isWhiteSpace_toLower (c : Char) : isWhiteSpace c.toLower = isWhiteSpace c := by
  unfold Char.toLower
  split
  · next h =>
    have hge : 65 ≤ c.toNat := UInt32.le_iff_toNat_le.1 h.1
    have hle : c.toNat ≤ 90 := UInt32.le_iff_toNat_le.1 h.2
    have hcode : (c.val + ('a'.val - 'A'.val)).toNat = c.toNat + 32 := by
      rw [UInt32.toNat_add, Char.toNat_val, Nat.mod_eq_of_lt]
      · rfl
      · change c.toNat + 32 < _
        omega
    have hcapital : isWhiteSpace c = false := isWhiteSpace_of_visible (by omega) (by omega)
    rw [hcapital]
    exact isWhiteSpace_of_visible (le_of_le_of_eq (by omega) hcode.symm) (hcode.trans_le (by omega))
  · rfl

namespace Text

/-! ## Pieces -/

section Pieces

variable {sep : Char} {a : List Char}

lemma beq_eq_false_of_notMem (ha : sep ∉ a) : ∀ c ∈ a, (c == sep) = false := by
  intro c hc
  rw [beq_eq_false_iff_ne]
  rintro rfl
  exact ha hc

/-- Pieces with separators between them are found again. -/
lemma split_intercalate {ps : List (List Char)} (hne : ps ≠ []) (h : ∀ p ∈ ps, sep ∉ p) :
    split (fun c => c == sep) ([sep].intercalate ps) = ps := by
  induction ps with
  | nil => exact absurd rfl hne
  | cons p ps ih =>
    rw [List.forall_mem_cons] at h
    have hp := beq_eq_false_of_notMem h.1
    cases ps with
    | nil => rw [List.intercalate_singleton, split_of_forall hp]
    | cons q ps =>
      rw [List.intercalate_cons_cons, List.append_assoc, List.singleton_append,
        split_append_cons hp (by simp), ih (List.cons_ne_nil _ _) h.2]

lemma cut?_append (ha : sep ∉ a) (b : List Char) :
    cut? sep (a ++ sep :: b) = some (a, b) := by
  induction a with
  | nil => simp [cut?]
  | cons d a ih =>
    rw [List.mem_cons, not_or] at ha
    simp [cut?, Ne.symm ha.1, ih ha.2]

lemma cut?_eq_none (ha : sep ∉ a) : cut? sep a = none := by
  induction a with
  | nil => rfl
  | cons c a ih =>
    rw [List.mem_cons, not_or] at ha
    simp [cut?, Ne.symm ha.1, ih ha.2]

end Pieces

/-! ## Words -/

section Words

variable {w : List Char} {c : Char}

lemma words_cons_blank (hc : Unicode.isWhiteSpace c = true) (text : List Char) :
    words (c :: text) = words text := by
  have hsplit := split_append_cons (a := []) (by simp) hc text
  rw [List.nil_append] at hsplit
  rw [words, hsplit, List.filter_cons_of_neg (by simp), words]

lemma words_append_blank (hw : Solid w) (hne : w ≠ []) (hc : Unicode.isWhiteSpace c = true)
    (text : List Char) : words (w ++ c :: text) = w :: words text := by
  rw [words, split_append_cons hw hc, List.filter_cons_of_pos (by simpa using hne), words]

lemma words_of_solid (hw : Solid w) (hne : w ≠ []) : words w = [w] := by
  rw [words, split_of_forall hw, List.filter_cons_of_pos (by simpa using hne), List.filter_nil]

/-- Words that are written side by side, with two blanks between them, are read back. -/
lemma words_intercalate {ws : List (List Char)} (h : ∀ w ∈ ws, Solid w ∧ w ≠ []) :
    words ([' ', ' '].intercalate ws) = ws := by
  have hblank : Unicode.isWhiteSpace ' ' = true := by decide
  induction ws with
  | nil => rfl
  | cons w ws ih =>
    rw [List.forall_mem_cons] at h
    obtain ⟨⟨hw, hne⟩, hrest⟩ := h
    cases ws with
    | nil => rw [List.intercalate_singleton, words_of_solid hw hne]
    | cons v ws =>
      rw [List.intercalate_cons_cons, List.append_assoc, List.cons_append,
        words_append_blank hw hne hblank, List.singleton_append, words_cons_blank hblank, ih hrest]

end Words

/-! ## Words in other spellings -/

/-- The text is a word in letters of either case, with any white space around it. -/
def Spells (text word : List Char) : Prop :=
  ∃ l w r, text = l ++ w ++ r ∧ l.all Unicode.isWhiteSpace = true ∧
    r.all Unicode.isWhiteSpace = true ∧ List.Forall₂ (fun c d => c.toLower = d.toLower) w word

variable {text word : List Char}

lemma dropWhile_blank {l rest : List Char} (hl : l.all Unicode.isWhiteSpace = true)
    (hrest : ∀ c, rest.head? = some c → Unicode.isWhiteSpace c = false) :
    (l ++ rest).dropWhile Unicode.isWhiteSpace = rest := by
  rw [List.dropWhile_append_of_pos (List.all_eq_true.1 hl)]
  cases rest with
  | nil => rfl
  | cons c rest => rw [List.dropWhile_cons_of_neg (by simp [hrest c rfl])]

lemma trim_blank {l w r : List Char} (hl : l.all Unicode.isWhiteSpace = true)
    (hr : r.all Unicode.isWhiteSpace = true) (hw : Solid w) : trim (l ++ w ++ r) = w := by
  by_cases hne : w = []
  · have hall : (l ++ r).all Unicode.isWhiteSpace = true := by
      rw [List.all_append, hl, hr]
      rfl
    have hnone : (l ++ r ++ []).dropWhile Unicode.isWhiteSpace = [] :=
      dropWhile_blank hall (by simp)
    rw [List.append_nil] at hnone
    rw [hne, trim, List.append_nil, hnone]
    rfl
  · have hfirst : ∀ c, (w ++ r).head? = some c → Unicode.isWhiteSpace c = false := by
      intro c hc
      rw [List.head?_append_of_ne_nil _ hne] at hc
      exact hw c (List.mem_of_head? hc)
    have hlast : ∀ c, w.reverse.head? = some c → Unicode.isWhiteSpace c = false := by
      intro c hc
      exact hw c (List.mem_reverse.1 (List.mem_of_head? hc))
    rw [trim, List.append_assoc, dropWhile_blank hl hfirst, List.reverse_append,
      dropWhile_blank (by rwa [List.all_reverse]) hlast, List.reverse_reverse]

lemma lower_eq_of_forall₂ {w v : List Char}
    (h : List.Forall₂ (fun c d => c.toLower = d.toLower) w v) : lower w = lower v := by
  induction h with
  | nil => rfl
  | cons hc _ ih => exact congrArg₂ List.cons hc ih

lemma solid_lower {w : List Char} : Solid (lower w) ↔ Solid w := by
  simp [Solid, lower, Unicode.isWhiteSpace_toLower]

/-- Without the white space around it, the text differs from the word in the case of letters
only. -/
lemma Spells.lower_trim (h : Spells text word) (hword : Solid word) :
    lower (trim text) = lower word := by
  obtain ⟨l, w, r, rfl, hl, hr, hw⟩ := h
  have hlower := lower_eq_of_forall₂ hw
  have hsolid : Solid w := by rwa [← solid_lower, hlower, solid_lower]
  rw [trim_blank hl hr hsolid, hlower]

/-- A sign that is no white space and is not in the word is not in the text. -/
lemma Spells.notMem (h : Spells text word) {sep : Char} (hsep : Unicode.isWhiteSpace sep = false)
    (hword : sep.toLower ∉ lower word) : sep ∉ text := by
  obtain ⟨l, w, r, rfl, hl, hr, hw⟩ := h
  rw [← lower_eq_of_forall₂ hw] at hword
  have hblank : ∀ {a : List Char}, a.all Unicode.isWhiteSpace = true → sep ∉ a := by
    intro a ha hmem
    rw [List.all_eq_true.1 ha sep hmem] at hsep
    cases hsep
  rw [List.mem_append, List.mem_append, not_or, not_or]
  exact ⟨⟨hblank hl, fun hmem => hword (List.mem_map_of_mem hmem)⟩, hblank hr⟩

end Text
end MetaPostEditor
