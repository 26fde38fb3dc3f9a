import MetaPostEditor.Proofs.Freshness

/-!
# The text and the caret after an edit

An edit works on a text `a ++ removed ++ b` at the end of `a`.  It may take out and put back pieces
of the text around that place several times, to scan them again, and none of this is to be seen in
the text: only the edit itself is.  The main result, `Editor.apply_exactly`, gives the text and the
caret after each kind of edit, whatever the tags are.  The line on which `a` ends is given as its
part `w` behind the last newline, so that the three rules for indentations can be read off.
-/

namespace MetaPostEditor

/-! ## A scan moves no character -/

/-- Putting a text at a place and scanning around it changes nothing else in the text. -/
lemma Draft.insert_text {d : Draft} {position : Nat} (h : position ≤ d.buffer.length)
    (comments : Bool) (inserted : List Char) :
    ∃ d', d.insert comments position inserted = .ok (d', position + inserted.length) ∧
      d'.buffer.text =
        d.buffer.text.take position ++ inserted ++ d.buffer.text.drop position := by
  have htake : d.buffer.text.take position = textOf (d.buffer.cells.take position) := by
    rw [textOf_take, Buffer.text_eq]
  have hdrop : d.buffer.text.drop position = textOf (d.buffer.cells.drop position) := by
    rw [textOf_drop, Buffer.text_eq]
  have hsplit : d.buffer.cells = d.buffer.cells.take position ++ d.buffer.cells.drop position :=
    (List.take_append_drop _ _).symm
  have hlen : (d.buffer.cells.take position).length = position := List.length_take_of_le h
  rw [htake, hdrop]
  generalize d.buffer.cells.take position = x at hsplit hlen
  generalize d.buffer.cells.drop position = y at hsplit
  cases hins : Text.startsBlank inserted with
  | false =>
    -- the word that ends at the place is scanned with the text
    obtain ⟨x₀, w, rfl, hx, hw⟩ := exists_closed_solid x
    obtain ⟨d', hd', -, hcells⟩ := insert_word_spec hsplit hx hw hins comments
    rw [hlen] at hd'
    refine ⟨d', hd', ?_⟩
    rw [Buffer.text_eq, hcells]
    simp [textOf_drop, rightOf_append_drop]
  | true =>
    obtain ⟨d', hd', -, hcells⟩ := insert_blank_spec hsplit hins comments
    rw [hlen] at hd'
    refine ⟨d', hd', ?_⟩
    rw [Buffer.text_eq, hcells]
    simp [textOf_drop, rightOf_append_drop]

/-! ## The kinds of edits -/

namespace Edit

variable {e : Edit}

lemma isDeletion_iff : e.isDeletion = true ↔ 0 < e.deleted ∧ e.inserted = [] := by
  simp [isDeletion]

lemma outcome_of_isDeletion (he : e.isDeletion = true) (o : Options) (a removed : List Char) :
    e.outcome o a removed =
      if goesBack o.outdent a removed then
        a.take (Indentation.lineStart a a.length) ++ Indentation.shallowerBefore a a.length
      else a := by
  rw [outcome, if_pos he]

lemma outcome_of_newline (he : e.inserted = ['\n']) {o : Options} (ho : o.autoindent = true)
    (a removed : List Char) :
    e.outcome o a removed = a ++ '\n' :: Indentation.before a a.length := by
  simp [outcome, isDeletion, isNewline, he, ho]

lemma outcome_of_other (he : ¬ (0 < e.deleted ∧ e.inserted = [])) {o : Options}
    (ho : ¬ (e.inserted = ['\n'] ∧ o.autoindent = true)) (a removed : List Char) :
    e.outcome o a removed = a ++ e.inserted := by
  rw [outcome, if_neg (mt isDeletion_iff.1 he), if_neg (by simpa [isNewline] using ho)]

end Edit

/-- Backspace in an indentation, by the line that the indentation is on. -/
lemma goesBack_iff {a₀ w : List Char} (hline : a₀ = [] ∨ a₀.getLast? = some '\n')
    (hw : '\n' ∉ w) (outdent : Bool) (removed : List Char) :
    goesBack outdent (a₀ ++ w) removed = true ↔
      outdent = true ∧ removed.all Unicode.isWhiteSpace = true ∧ w ≠ [] ∧
        w.all Unicode.isWhiteSpace = true := by
  rw [goesBack, Indentation.before_of_newline hline hw,
    Indentation.blankBefore_of_newline hline hw, ← Indentation.blank_iff]
  simp [and_assoc]

/-- An edit that lies in the text is made, and what stands behind what it removes stays there. -/
lemma Editor.apply_of_text (ed : Editor) {a removed b : List Char}
    (htext : ed.text = a ++ removed ++ b) {e : Edit} (hpos : e.position = a.length)
    (hdel : e.deleted = removed.length) :
    ∃ ed', ed.apply e = .ok ((e.outcome ed.options a removed).length, ed') ∧
      ed'.text = e.outcome ed.options a removed ++ b ∧
      ed'.caret = (e.outcome ed.options a removed).length ∧ ed'.options = ed.options := by
  have hlen := congrArg List.length htext
  rw [Editor.text, Buffer.length_text, List.length_append, List.length_append] at hlen
  obtain ⟨d, head, hhead, hmakes, happly⟩ := ed.apply_eq e (by omega)
  have ha : ed.text.take e.position = a := by
    rw [htext, hpos, List.append_assoc, List.take_left]
  have hremoved : (ed.text.drop e.position).take e.deleted = removed := by
    rw [htext, hpos, hdel, List.append_assoc, List.drop_left, List.take_left]
  have hb : textOf (ed.buffer.cells.drop (e.position + e.deleted)) = b := by
    rw [textOf_drop, ← Buffer.text_eq, ← Editor.text, htext, hpos, hdel, ← List.length_append,
      List.drop_left]
  rw [ha, hremoved] at hhead
  rw [← hhead]
  exact ⟨_, happly, hb ▸ hmakes.text, rfl, rfl⟩

/-- **What an edit does to the text and the caret.**  The text is `a₀ ++ w ++ removed ++ b`, where
`w` is what stands behind the last newline before the place of the edit.

* Removing text goes back to a shallower indentation, if that option is set and the line holds
  white space before the place and nothing but white space up to the end of what is removed.
  Otherwise it only removes.
* Enter repeats the indentation of the line, if that option is set.
* Every other edit puts its text in the place of what it removes.

The caret is then behind what was put in.  No scan of a piece of the text adds, drops or moves a
character. -/
theorem Editor.apply_exactly (ed : Editor) {a₀ w removed b : List Char} (inserted : List Char)
    (htext : ed.text = a₀ ++ w ++ removed ++ b) (hline : a₀ = [] ∨ a₀.getLast? = some '\n')
    (hw : '\n' ∉ w) :
    (∃ ed', ed.apply ⟨(a₀ ++ w).length, removed.length, inserted⟩ = .ok (ed'.caret, ed') ∧
      (removed ≠ [] → inserted = [] →
        if ed.options.outdent = true ∧ removed.all Unicode.isWhiteSpace = true ∧ w ≠ [] ∧
            w.all Unicode.isWhiteSpace = true then
          ed'.text = a₀ ++ Indentation.shallowerBefore (a₀ ++ w ++ b) (a₀ ++ w).length ++ b ∧
          ed'.caret =
            a₀.length + (Indentation.shallowerBefore (a₀ ++ w ++ b) (a₀ ++ w).length).length
        else ed'.text = a₀ ++ w ++ b ∧ ed'.caret = (a₀ ++ w).length) ∧
      (inserted = ['\n'] → ed.options.autoindent = true →
        ed'.text = a₀ ++ w ++ '\n' :: w.takeWhile Unicode.isWhiteSpace ++ b ∧
        ed'.caret = (a₀ ++ w).length + 1 + (w.takeWhile Unicode.isWhiteSpace).length) ∧
      (¬ (removed ≠ [] ∧ inserted = []) →
        ¬ (inserted = ['\n'] ∧ ed.options.autoindent = true) →
        ed'.text = a₀ ++ w ++ inserted ++ b ∧
        ed'.caret = (a₀ ++ w).length + inserted.length)) ∧
    ∀ (d : Draft) (comments : Bool) (position : Nat) (t : List Char),
      position ≤ d.buffer.length →
      ∃ d', d.insert comments position t = .ok (d', position + t.length) ∧
        d'.buffer.text = d.buffer.text.take position ++ t ++ d.buffer.text.drop position := by
  refine ⟨?_, fun d comments position t h => Draft.insert_text h comments t⟩
  generalize he : (⟨(a₀ ++ w).length, removed.length, inserted⟩ : Edit) = e
  obtain ⟨ed', happly, htext', hcaret, -⟩ :=
    ed.apply_of_text htext (show e.position = _ by rw [← he]) (show e.deleted = _ by rw [← he])
  have hinserted : e.inserted = inserted := by rw [← he]
  have hdeleted : 0 < e.deleted ↔ removed ≠ [] := by rw [← he, List.length_pos_iff]
  rw [← hcaret] at happly
  refine ⟨ed', happly, ?_, ?_, ?_⟩
  · intro hremoved hnone
    have hback := goesBack_iff hline hw ed.options.outdent removed
    have hdeletion : e.isDeletion = true :=
      Edit.isDeletion_iff.2 ⟨hdeleted.2 hremoved, hinserted.trans hnone⟩
    rw [Edit.outcome_of_isDeletion hdeletion] at htext' hcaret
    split
    · next h =>
      rw [if_pos (hback.2 h), Indentation.lineStart_of_newline hline hw, List.take_left,
        ← Indentation.shallowerBefore_append _ b] at htext' hcaret
      exact ⟨htext', by rw [hcaret, List.length_append]⟩
    · next h =>
      rw [if_neg (mt hback.1 h)] at htext' hcaret
      exact ⟨htext', hcaret⟩
  · intro hnewline hauto
    rw [Edit.outcome_of_newline (hinserted.trans hnewline) hauto,
      Indentation.before_of_newline hline hw] at htext' hcaret
    refine ⟨htext', ?_⟩
    rw [hcaret, List.length_append, List.length_cons, Indentation.ofLine]
    omega
  · intro hdeletion hnewline
    rw [← hinserted, ← hdeleted] at hdeletion
    rw [← hinserted] at hnewline
    rw [Edit.outcome_of_other hdeletion hnewline, hinserted] at htext' hcaret
    exact ⟨htext', by rw [hcaret, List.length_append]⟩

/-- Backspace at the start of a word that is indented deeper than the blank line above it. -/
theorem Editor.apply_exactly_outdent :
    (ofText "if\n  \n    x".toList).text =
        "if\n  \n".toList ++ "   ".toList ++ " ".toList ++ "x".toList ∧
      ∃ ed', (ofText "if\n  \n    x".toList).apply ⟨9, 1, []⟩ = .ok (ed'.caret, ed') ∧
        ed'.text = "if\n  \n  x".toList ∧ ed'.caret = 8 := by
  have htext : (ofText "if\n  \n    x".toList).text =
      "if\n  \n".toList ++ "   ".toList ++ " ".toList ++ "x".toList := by decide
  obtain ⟨⟨ed', happly, hdeletion, -⟩, -⟩ :=
    apply_exactly (ofText "if\n  \n    x".toList) [] htext (by decide) (by decide)
  have hindent : Indentation.shallowerBefore
      ("if\n  \n".toList ++ "   ".toList ++ "x".toList) ("if\n  \n".toList ++ "   ".toList).length =
      "  ".toList := by decide +kernel
  rw [if_pos (by decide), hindent] at hdeletion
  exact ⟨htext, ed', happly, hdeletion (by decide) rfl⟩

end MetaPostEditor
