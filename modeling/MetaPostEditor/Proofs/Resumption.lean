import MetaPostEditor.Proofs.Freshness

/-!
# Taking up a scan in the middle of a text

A scan of a piece starts in a state that is read off the tags before the piece.  Both quotes of a
string have the tag `normal`, so the tags alone do not tell on which side of a quote one is: the
quotes next to the place are counted, and the tag before them is turned round for each.

In a fresh editor this finds at every place, in the middle of a word too, the state of a scan from
the beginning, as far as strings and comments are concerned (`Editor.stateAt_exactly`).  No more of
the state is needed to read on: from there the scan goes through the same states as the scan of the
whole text.
-/

namespace MetaPostEditor

namespace Scanner

lemma State.carry_eq_ite (s : State) :
    s.carry =
      if s = .quoted ∨ s = .openQuote then .quoted
      else if s = .comment then .comment
      else .normal := by
  cases s <;> rfl

lemma State.carry_eq_quoted_iff (s : State) : s.carry = .quoted ↔ s.inString = true := by
  cases s <;> simp [State.carry, State.inString]

/-- The states behind a place are those of a scan that starts there. -/
lemma drop_trace (comments : Bool) (s : State) (text : List Char) (n : Nat) :
    (trace comments s text).drop n =
      trace comments (s.run comments (text.take n)) (text.drop n) := by
  induction text generalizing s n with
  | nil => simp [trace]
  | cons c rest ih =>
    cases n with
    | zero => rfl
    | succ n => exact ih (s.step comments c) n

end Scanner

namespace Editor

variable {ed : Editor}

/-- The tags of a fresh editor tell the state at every place. -/
lemma Fresh.stateAt (hfresh : ed.Fresh) {start : Nat} (hstart : start ≤ ed.buffer.length) :
    ed.buffer.stateAt start =
      (Scanner.State.normal.run ed.options.comments (ed.text.take start)).carry := by
  have hlength : (ed.text.take start).length = start := by
    rw [text, List.length_take_of_le (by rwa [Buffer.length_text])]
  have hcarry := carryOf_take_classify ed.options.comments (ed.text.take start)
    (ed.text.drop start)
  rwa [hlength, List.take_append_drop, text, ← ed.fresh_iff.1 hfresh] at hcarry

/-- **Taking up a scan.**  If the tags are those of a scan of the whole text, the state read off the
tags before a place is, at every place, the one that the scan is in there: inside a string, inside a
comment, or neither.  A scan that is taken up in it goes through the same states as the scan of the
whole text.  Where comments are not shown, the few quotes that are looked at tell whether the number
of all quotes before the place is odd. -/
theorem stateAt_exactly (hfresh : ed.Fresh) {start : Nat} (hstart : start ≤ ed.buffer.length)
    {s : Scanner.State}
    (hs : s = (ed.text.take start).foldl (Scanner.State.step ed.options.comments) .normal) :
    (ed.buffer.stateAt start =
      if s = .quoted ∨ s = .openQuote then .quoted
      else if s = .comment then .comment
      else .normal) ∧
    Scanner.trace ed.options.comments (ed.buffer.stateAt start) (ed.text.drop start) =
      (Scanner.trace ed.options.comments .normal ed.text).drop start ∧
    (ed.options.comments = false →
      (ed.buffer.stateAt start = .quoted ↔ (ed.text.take start).count '"' % 2 = 1)) := by
  rw [← Scanner.State.run] at hs
  rw [hfresh.stateAt hstart, ← hs]
  refine ⟨s.carry_eq_ite, ?_, fun hcomments => ?_⟩
  · rw [Scanner.drop_trace, ← hs]
    exact Scanner.trace_of_carry_eq (Scanner.State.carry_carry s) _ _
  · rw [hcomments] at hs
    rw [Scanner.State.carry_eq_quoted_iff, hs, Scanner.State.inString_run]
    simp [Scanner.State.inString]

/-- An empty string, a quote in a comment, and a string that is left open.  Behind the empty string
the place is outside, behind the quote in the comment it is in the comment, and behind the last
quote it is in a string. -/
theorem stateAt_exactly_quote_in_comment :
    ∃ ed : Editor, ed = (empty ⟨true, true, true, 9⟩).load ['"', '"', '%', '"', '\n', '"'] ∧
      ed.Fresh ∧ ed.buffer.stateAt 2 = .normal ∧ ed.buffer.stateAt 4 = .comment ∧
      ed.buffer.stateAt 6 = .quoted := by
  have hfresh : ((empty ⟨true, true, true, 9⟩).load ['"', '"', '%', '"', '\n', '"']).Fresh := by
    decide
  have hstate : ∀ start ≤ 6, _ := fun start hstart => (stateAt_exactly hfresh hstart rfl).1
  refine ⟨_, rfl, hfresh, ?_, ?_, ?_⟩
  · exact (hstate 2 (by decide)).trans (by decide)
  · exact (hstate 4 (by decide)).trans (by decide)
  · exact (hstate 6 (by decide)).trans (by decide)

end Editor
end MetaPostEditor
