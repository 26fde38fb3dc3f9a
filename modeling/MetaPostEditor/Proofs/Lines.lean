import MetaPostEditor.Indentation
import Mathlib.Data.List.Induction
import Mathlib.Data.List.TakeWhile
import Mathlib.Tactic.Lemma

/-!
# The line that a place lies on

The indentation at a place is found by walking back to the start of a line, and from there forward
over white space; shallower indentations are found by walking back from line to line.  This file
compares these walks with the list of the lines that the text before the place falls apart into
(`Indentation.LinesBefore`).  Each walk ends where that list says:

* `Indentation.LinesBefore.lineStart_eq`: the walk back, at the start of the last line;
* `Indentation.LinesBefore.before_eq`: the walk forward, behind the white space of the last line;
* `Indentation.LinesBefore.shallowerBefore_eq`: the walk from line to line, at the nearest earlier
  line that is indented less.

The indentations that are found so consist of white space only, and hold no newline.
-/

namespace MetaPostEditor

namespace Text

/-- No piece holds a separator. -/
lemma sep_eq_false_of_mem_split {sep : Char → Bool} {text piece : List Char}
    (h : piece ∈ split sep text) {c : Char} (hc : c ∈ piece) : sep c = false := by
  induction text generalizing piece with
  | nil =>
    obtain rfl : piece = [] := by simpa [split] using h
    simp at hc
  | cons d rest ih =>
    rw [split_cons] at h
    cases hsplit : split sep rest with
    | nil => exact absurd hsplit (split_ne_nil sep rest)
    | cons first pieces =>
      rw [hsplit] at h ih
      rw [consPiece] at h
      split at h
      · rcases List.mem_cons.1 h with rfl | h
        · simp at hc
        · exact ih h hc
      · next hd =>
        rcases List.mem_cons.1 h with rfl | h
        · rcases List.mem_cons.1 hc with rfl | hc
          · simpa using hd
          · exact ih (by simp) hc
        · exact ih (by simp [h]) hc

lemma split_of_forall {sep : Char → Bool} {text : List Char} (h : ∀ c ∈ text, sep c = false) :
    split sep text = [text] := by
  induction text with
  | nil => rfl
  | cons c text ih =>
    rw [List.forall_mem_cons] at h
    simp [split_cons, ih h.2, consPiece, h.1]

/-- The first piece ends at the first separator. -/
lemma split_append_cons {sep : Char → Bool} {a : List Char} (ha : ∀ c ∈ a, sep c = false)
    {c : Char} (hc : sep c = true) (b : List Char) :
    split sep (a ++ c :: b) = a :: split sep b := by
  induction a with
  | nil =>
    rw [List.nil_append, split_cons]
    cases hb : split sep b with
    | nil => exact absurd hb (split_ne_nil sep b)
    | cons piece pieces => simp [consPiece, hc]
  | cons d a ih =>
    rw [List.forall_mem_cons] at ha
    simp [split_cons, ih ha.2, consPiece, ha.1]

/-- The lines of a text with newlines between them are the text. -/
lemma exists_lines (text : List Char) :
    ∃ first rest, lines text = first :: rest ∧ text = first ++ rest.flatMap ('\n' :: ·) ∧
      rest.length = text.count '\n' := by
  induction text with
  | nil => exact ⟨[], [], rfl, rfl, rfl⟩
  | cons c text ih =>
    obtain ⟨first, rest, hlines, htext, hcount⟩ := ih
    have hcons : lines (c :: text) = consPiece (· == '\n') c (first :: rest) := by
      rw [← hlines, lines, split_cons]
      rfl
    by_cases hc : c = '\n'
    · subst hc
      exact ⟨[], first :: rest, hcons, by simp [← htext], by simp [hcount]⟩
    · refine ⟨c :: first, rest, by simp [hcons, consPiece, hc], by simp [← htext], ?_⟩
      rw [hcount, List.count_cons_of_ne hc]

lemma newline_notMem_of_mem_lines {text line : List Char} (h : line ∈ lines text) :
    '\n' ∉ line := by
  intro hc
  simpa using sep_eq_false_of_mem_split h hc

end Text

namespace Indentation

/-! ## The lines before a place -/

/-- The text of whole lines, each with the newline that ends it. -/
def unlines (ls : List (List Char)) : List Char :=
  ls.flatMap (· ++ ['\n'])

/-- The text before `offset` consists of the lines `ls`, each with its newline, and the part `l` of
the line that `offset` lies on. -/
structure LinesBefore (text : List Char) (offset : Nat) (ls : List (List Char)) (l : List Char) :
    Prop where
  split : text.take offset = unlines ls ++ l
  earlier : ∀ line ∈ ls, '\n' ∉ line
  last : '\n' ∉ l

variable {text l : List Char} {offset : Nat} {ls : List (List Char)}

lemma unlines_cons (first : List Char) (ls : List (List Char)) :
    unlines (first :: ls) = first ++ '\n' :: unlines ls := by
  simp [unlines]

lemma unlines_concat (ls : List (List Char)) (line : List Char) :
    unlines (ls ++ [line]) = unlines ls ++ line ++ ['\n'] := by
  simp [unlines]

/-- What follows whole lines is at the start of a line. -/
lemma unlines_ends (ls : List (List Char)) :
    unlines ls = [] ∨ (unlines ls).getLast? = some '\n' := by
  rcases List.eq_nil_or_concat ls with rfl | ⟨us, line, rfl⟩
  · exact .inl rfl
  · exact .inr (by simp [unlines])

/-- A text is lines with their newlines and the beginning of a line. -/
lemma exists_unlines (a : List Char) :
    ∃ ls l, a = unlines ls ++ l ∧ (∀ line ∈ ls, '\n' ∉ line) ∧ '\n' ∉ l := by
  induction a with
  | nil => exact ⟨[], [], rfl, by simp, by simp⟩
  | cons c a ih =>
    obtain ⟨ls, l, ha, hls, hl⟩ := ih
    by_cases hc : c = '\n'
    · exact ⟨[] :: ls, l, by simp [ha, hc, unlines], by simpa using hls, hl⟩
    · cases ls with
      | nil => exact ⟨[], c :: l, by simp [ha, unlines], by simp, by simp [Ne.symm hc, hl]⟩
      | cons first ls =>
        rw [List.forall_mem_cons] at hls
        refine ⟨(c :: first) :: ls, l, by simp [ha, unlines], ?_, hl⟩
        simpa [Ne.symm hc, hls.1] using hls.2

/-- The lines before a place can be told. -/
lemma exists_linesBefore (text : List Char) (offset : Nat) :
    ∃ ls l, LinesBefore text offset ls l := by
  obtain ⟨ls, l, h, hls, hl⟩ := exists_unlines (text.take offset)
  exact ⟨ls, l, h, hls, hl⟩

lemma LinesBefore.lines (h : LinesBefore text offset ls l) :
    Text.lines (text.take offset) = ls ++ [l] := by
  obtain ⟨hsplit, hls, hl⟩ := h
  have hsep : ∀ {line : List Char}, '\n' ∉ line → ∀ c ∈ line, (c == '\n') = false := by
    intro line hline c hc
    rw [beq_eq_false_iff_ne]
    rintro rfl
    exact hline hc
  rw [hsplit]
  clear hsplit
  induction ls with
  | nil => exact Text.split_of_forall (hsep hl)
  | cons first ls ih =>
    rw [List.forall_mem_cons] at hls
    rw [unlines_cons, List.append_assoc, List.cons_append, Text.lines,
      Text.split_append_cons (hsep hls.1) rfl, ← Text.lines, ih hls.2, List.cons_append]

/-! ## The walks in a text that is given in pieces -/

section Walks

variable {a w : List Char}

/-- The walk back stops behind the last newline. -/
lemma backToNewline_append (ha : a = [] ∨ a.getLast? = some '\n') (hw : '\n' ∉ w)
    (b : List Char) : backToNewline (a ++ w ++ b) (a ++ w).length = a.length := by
  induction w using List.reverseRecOn generalizing b with
  | nil =>
    rcases ha with rfl | ha
    · rfl
    · obtain ⟨a', rfl⟩ := List.getLast?_eq_some_iff.1 ha
      simp [backToNewline]
  | append_singleton w c ih =>
    rw [List.mem_append, List.mem_singleton, not_or] at hw
    have hlength : (a ++ (w ++ [c])).length = (a ++ w).length + 1 := by
      simp only [List.length_append, List.length_singleton]
      omega
    have htext : a ++ (w ++ [c]) ++ b = a ++ w ++ (c :: b) := by simp
    have hchar : (a ++ w ++ (c :: b))[(a ++ w).length]? = some c := by
      rw [List.getElem?_append_right (Nat.le_refl _)]
      simp
    rw [hlength, htext, backToNewline, hchar, if_neg (by simpa using Ne.symm hw.2), ih hw.1]

lemma lineStart_append_of_newline (ha : a = [] ∨ a.getLast? = some '\n') (hw : '\n' ∉ w)
    (b : List Char) : lineStart (a ++ w ++ b) (a ++ w).length = a.length := by
  rw [lineStart, Nat.min_eq_left (by simp), backToNewline_append ha hw]

/-- The walk forward stops behind the white space that a piece starts with. -/
lemma overBlanks_append (x w y : List Char) :
    overBlanks (x ++ w ++ y) x.length w.length = x.length + (ofLine w).length := by
  induction w generalizing x with
  | nil => rfl
  | cons c w ih =>
    have hchar : (x ++ (c :: w) ++ y)[x.length]? = some c := by simp
    rw [List.length_cons, overBlanks, hchar, Option.any_some, ofLine, List.takeWhile_cons, ← ofLine]
    split
    · next hc =>
      have hnext := ih (x ++ [c])
      rw [List.append_assoc x, List.singleton_append, List.length_append,
        List.length_singleton] at hnext
      rw [hnext, List.length_cons]
      omega
    · rfl

lemma blanks_append (x w y : List Char) :
    blanks (x ++ w ++ y) x.length (x ++ w).length = ofLine w := by
  have hrest : w = ofLine w ++ w.dropWhile Unicode.isWhiteSpace :=
    List.takeWhile_append_dropWhile.symm
  rw [blanks, List.length_append, Nat.add_sub_cancel_left, overBlanks_append, List.append_assoc,
    List.take_length_add_append, List.drop_left]
  generalize ofLine w = v at hrest
  rw [hrest, List.append_assoc, List.take_left]

/-- The walk from line to line meets the lines from the last one on. -/
lemma shallowerThan_unlines (hls : ∀ line ∈ ls, '\n' ∉ line) (depth : Nat) (b : List Char) :
    shallowerThan (unlines ls ++ b) depth (unlines ls).length =
      ((ls.reverse.map ofLine).find? fun indent => indent.length < depth).getD [] := by
  induction ls using List.reverseRecOn generalizing b with
  | nil =>
    change shallowerThan b depth 0 = []
    rw [shallowerThan]
  | append_singleton ls line ih =>
    rw [List.forall_mem_append, List.forall_mem_singleton] at hls
    have htext : unlines (ls ++ [line]) ++ b = unlines ls ++ line ++ '\n' :: b := by
      simp [unlines_concat]
    have hlength : (unlines (ls ++ [line])).length = (unlines ls ++ line).length + 1 := by
      rw [unlines_concat, List.length_append, List.length_singleton]
    rw [htext, hlength, shallowerThan, lineStart_append_of_newline (unlines_ends ls) hls.2,
      blanks_append, List.append_assoc (unlines ls), ih hls.1]
    by_cases hdepth : (ofLine line).length < depth
    · simp [hdepth]
    · simp [hdepth]

end Walks

/-! ## The walks and the lines before a place -/

namespace LinesBefore

variable (h : LinesBefore text offset ls l)

include h

lemma length_eq : min offset text.length = (unlines ls ++ l).length := by
  rw [← h.split, List.length_take]

lemma text_eq : text = unlines ls ++ l ++ text.drop offset := by
  rw [← h.split, List.take_append_drop]

/-- The line that the place lies on starts behind the earlier lines. -/
lemma lineStart_eq : lineStart text offset = (unlines ls).length := by
  have hwalk := backToNewline_append (unlines_ends ls) h.last (text.drop offset)
  rwa [← h.text_eq, ← h.length_eq] at hwalk

lemma lineStart_min_eq : lineStart text (min offset text.length) = (unlines ls).length := by
  rw [← h.lineStart_eq, lineStart, lineStart, Nat.min_assoc, Nat.min_self]

lemma blanks_eq :
    blanks text (lineStart text (min offset text.length)) (min offset text.length) = ofLine l := by
  have hblanks := blanks_append (unlines ls) l (text.drop offset)
  rwa [← h.text_eq, ← h.length_eq, ← h.lineStart_min_eq] at hblanks

/-- The indentation at the place is the white space that its line starts with. -/
lemma before_eq : before text offset = ofLine l :=
  h.blanks_eq

lemma blankBefore_eq : blankBefore text offset = l.all Unicode.isWhiteSpace := by
  rw [blankBefore, h.blanks_eq, h.lineStart_min_eq, h.length_eq, List.length_append,
    Nat.add_sub_cancel_left, Bool.eq_iff_iff, beq_iff_eq, List.all_eq_true]
  constructor
  · intro hlength
    exact List.takeWhile_eq_self_iff.1 ((List.takeWhile_prefix _).eq_of_length hlength)
  · intro hblank
    rw [ofLine, List.takeWhile_eq_self_iff.2 hblank]

/-- The shallower indentation is that of the nearest earlier line that is indented less. -/
lemma shallowerBefore_eq :
    shallowerBefore text offset =
      ((ls.reverse.map ofLine).find? fun indent => indent.length < (ofLine l).length).getD [] := by
  have hwalk := shallowerThan_unlines h.earlier (ofLine l).length (l ++ text.drop offset)
  rw [← List.append_assoc, ← h.text_eq] at hwalk
  rw [shallowerBefore, h.blanks_eq, h.lineStart_min_eq, hwalk]

end LinesBefore

/-! ## Only the text before the place counts -/

lemma LinesBefore.append {a : List Char} (h : LinesBefore a a.length ls l) (b : List Char) :
    LinesBefore (a ++ b) a.length ls l := by
  refine ⟨?_, h.earlier, h.last⟩
  rw [List.take_left, ← h.split, List.take_length]

lemma lineStart_append (a b : List Char) :
    lineStart (a ++ b) a.length = lineStart a a.length := by
  obtain ⟨ls, l, h⟩ := exists_linesBefore a a.length
  rw [h.lineStart_eq, (h.append b).lineStart_eq]

lemma before_append (a b : List Char) : before (a ++ b) a.length = before a a.length := by
  obtain ⟨ls, l, h⟩ := exists_linesBefore a a.length
  rw [h.before_eq, (h.append b).before_eq]

lemma blankBefore_append (a b : List Char) :
    blankBefore (a ++ b) a.length = blankBefore a a.length := by
  obtain ⟨ls, l, h⟩ := exists_linesBefore a a.length
  rw [h.blankBefore_eq, (h.append b).blankBefore_eq]

lemma shallowerBefore_append (a b : List Char) :
    shallowerBefore (a ++ b) a.length = shallowerBefore a a.length := by
  obtain ⟨ls, l, h⟩ := exists_linesBefore a a.length
  rw [h.shallowerBefore_eq, (h.append b).shallowerBefore_eq]

/-! ## A text cut at the start of its last line -/

/-- The line that the end of a text lies on starts behind a newline or at the start of the text. -/
lemma exists_lastLine (a : List Char) :
    ∃ a₀ l, a = a₀ ++ l ∧ (a₀ = [] ∨ a₀.getLast? = some '\n') ∧ '\n' ∉ l := by
  obtain ⟨ls, l, ha, -, hl⟩ := exists_unlines a
  exact ⟨unlines ls, l, ha, unlines_ends ls, hl⟩

section

variable {a₀ w : List Char}

/-- What stands behind the last newline is the line that the end of a text lies on. -/
lemma exists_linesBefore_of_newline (h : a₀ = [] ∨ a₀.getLast? = some '\n') (hw : '\n' ∉ w) :
    ∃ ls, LinesBefore (a₀ ++ w) (a₀ ++ w).length ls w := by
  obtain ⟨ls, l, rfl, hls, hl⟩ := exists_unlines a₀
  obtain rfl : l = [] := by
    rcases List.eq_nil_or_concat l with rfl | ⟨r, c, rfl⟩
    · rfl
    · have hc : c = '\n' := by simpa [← List.append_assoc] using h
      simp [hc] at hl
  exact ⟨ls, by rw [List.append_nil, List.take_length], hls, hw⟩

lemma lineStart_of_newline (h : a₀ = [] ∨ a₀.getLast? = some '\n') (hw : '\n' ∉ w) :
    lineStart (a₀ ++ w) (a₀ ++ w).length = a₀.length := by
  rw [← lineStart_append (a₀ ++ w) [], lineStart_append_of_newline h hw]

lemma before_of_newline (h : a₀ = [] ∨ a₀.getLast? = some '\n') (hw : '\n' ∉ w) :
    before (a₀ ++ w) (a₀ ++ w).length = ofLine w := by
  obtain ⟨ls, hlines⟩ := exists_linesBefore_of_newline h hw
  exact hlines.before_eq

lemma blankBefore_of_newline (h : a₀ = [] ∨ a₀.getLast? = some '\n') (hw : '\n' ∉ w) :
    blankBefore (a₀ ++ w) (a₀ ++ w).length = w.all Unicode.isWhiteSpace := by
  obtain ⟨ls, hlines⟩ := exists_linesBefore_of_newline h hw
  exact hlines.blankBefore_eq

lemma ofLine_of_blank (hw : ∀ c ∈ w, Unicode.isWhiteSpace c = true) : ofLine w = w :=
  List.takeWhile_eq_self_iff.2 hw

/-- The line has an indentation and nothing else. -/
lemma blank_iff : ofLine w ≠ [] ∧ w.all Unicode.isWhiteSpace = true ↔
    w ≠ [] ∧ w.all Unicode.isWhiteSpace = true := by
  constructor
  · rintro ⟨hne, hall⟩
    rw [ofLine_of_blank (List.all_eq_true.1 hall)] at hne
    exact ⟨hne, hall⟩
  · rintro ⟨hne, hall⟩
    rw [ofLine_of_blank (List.all_eq_true.1 hall)]
    exact ⟨hne, hall⟩

end

/-! ## What indentations consist of -/

lemma isWhiteSpace_of_mem_ofLine {line : List Char} {c : Char} (h : c ∈ ofLine line) :
    Unicode.isWhiteSpace c = true :=
  List.all_eq_true.1 List.all_takeWhile c h

lemma newline_notMem_ofLine {line : List Char} (h : '\n' ∉ line) : '\n' ∉ ofLine line :=
  fun hmem => h (List.takeWhile_subset _ hmem)

lemma isWhiteSpace_of_mem_before {a : List Char} {c : Char} (h : c ∈ before a offset) :
    Unicode.isWhiteSpace c = true := by
  obtain ⟨ls, l, hlines⟩ := exists_linesBefore a offset
  rw [hlines.before_eq] at h
  exact isWhiteSpace_of_mem_ofLine h

lemma newline_notMem_before (a : List Char) (offset : Nat) : '\n' ∉ before a offset := by
  obtain ⟨ls, l, hlines⟩ := exists_linesBefore a offset
  rw [hlines.before_eq]
  exact newline_notMem_ofLine hlines.last

/-- Backspace goes back to the indentation of a line that is indented less, or to none. -/
lemma shallowerBefore_cases (a : List Char) (offset : Nat) :
    shallowerBefore a offset = [] ∨
      ∃ line, '\n' ∉ line ∧ shallowerBefore a offset = ofLine line ∧
        (ofLine line).length < (before a offset).length := by
  obtain ⟨ls, l, hlines⟩ := exists_linesBefore a offset
  rw [hlines.shallowerBefore_eq, hlines.before_eq]
  cases hfind : (ls.reverse.map ofLine).find? fun indent => indent.length < (ofLine l).length with
  | none => exact Or.inl rfl
  | some indent =>
    obtain ⟨line, hline, rfl⟩ := List.mem_map.1 (List.mem_of_find?_eq_some hfind)
    have hnewline := hlines.earlier line (List.mem_reverse.1 hline)
    exact Or.inr ⟨line, hnewline, rfl, by simpa using List.find?_some hfind⟩

lemma isWhiteSpace_of_mem_shallowerBefore {a : List Char} {c : Char}
    (h : c ∈ shallowerBefore a offset) : Unicode.isWhiteSpace c = true := by
  rcases shallowerBefore_cases a offset with hnone | ⟨line, -, hline, -⟩
  · simp [hnone] at h
  · rw [hline] at h
    exact isWhiteSpace_of_mem_ofLine h

lemma newline_notMem_shallowerBefore (a : List Char) (offset : Nat) :
    '\n' ∉ shallowerBefore a offset := by
  rcases shallowerBefore_cases a offset with hnone | ⟨line, hnewline, hline, -⟩
  · simp [hnone]
  · rw [hline]
    exact newline_notMem_ofLine hnewline

/-- Going back to a shallower indentation makes an indentation shorter. -/
lemma length_shallowerBefore_lt {a : List Char} (h : before a offset ≠ []) :
    (shallowerBefore a offset).length < (before a offset).length := by
  rcases shallowerBefore_cases a offset with hnone | ⟨line, -, hline, hlt⟩
  · rw [hnone]
    exact List.length_pos_iff.2 h
  · rwa [hline]

/-- The white space that breaks a line and indents the next one ends with white space. -/
lemma endsBlank_newline (a : List Char) (offset : Nat) :
    Text.endsBlank ('\n' :: before a offset) = true := by
  rw [Text.endsBlank]
  rcases List.eq_nil_or_concat (before a offset) with h | ⟨b, c, h⟩
  · rw [h]
    rfl
  · have hc : c ∈ before a offset := by simp [h]
    have hwhite := isWhiteSpace_of_mem_before hc
    rw [h, List.concat_eq_append, ← List.cons_append, List.getLast?_append]
    simpa using hwhite

end Indentation
end MetaPostEditor
