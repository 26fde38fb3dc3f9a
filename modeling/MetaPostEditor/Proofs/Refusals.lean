import MetaPostEditor.Proofs.Operations

/-!
# Which edits are refused

Place and length of an edit come from outside as machine words, and their sum need not be one.  An
edit is refused exactly if that sum, as a number, lies behind the end of the text, and a sum of
words that wraps round is given up before it is compared (`Editor.applyWords`).  The check stands
before all that an edit does to its draft, and behind it nothing fails: every piece that is scanned
again lies in the text as it is by then, every scan gives one tag for each character, and the caret
is found without a difference that goes below zero.  So there is never a draft that would have to be
given up half way.
-/

namespace MetaPostEditor

/-- A sum of words that wraps round is less than its parts, and as a number it is not a word. -/
lemma add_lt_left_iff (a b : UInt64) : a + b < a ↔ ¬ a.toNat + b.toNat < UInt64.size := by
  have ha := a.toNat_lt
  have hb := b.toNat_lt
  rw [UInt64.lt_iff_toNat_lt, UInt64.toNat_add, UInt64.size]
  omega

lemma checkedAdd?_eq (a b : UInt64) :
    checkedAdd? a b = if a.toNat + b.toNat < UInt64.size then some (a + b) else none := by
  simp only [checkedAdd?, add_lt_left_iff, ite_not]

/-- What stands behind the place is part of the widened piece. -/
lemma Widening.length_right_le (w : Widening) (inserted : List Char) :
    w.right.length ≤ w.start + (w.splice inserted).length := by
  rw [Widening.splice, List.length_append]
  omega

namespace Editor

variable {ed : Editor} {e : Edit}

lemma apply_of_gt (h : ed.buffer.length < e.position + e.deleted) :
    ed.apply e = .error (.outOfRange e.position e.deleted ed.buffer.length) := by
  rw [apply, if_pos h]
  rfl

/-- Behind the check of its range an edit does not fail. -/
lemma exists_edit (h : e.position + e.deleted ≤ ed.buffer.length) :
    ∃ d caret, (Draft.mk ed.buffer []).edit ed.options e = .ok (d, caret) ∧
      caret ≤ d.buffer.length ∧ ed.apply e = .ok (caret, ed.after e) := by
  obtain ⟨d, head, -, hd, hmakes⟩ := ed.edit_eq e h
  refine ⟨d, head.length, hd, hmakes.length_le, ?_⟩
  rw [after, apply_of_edit h hd]

lemma apply_eq_error_iff {err : EditError} :
    ed.apply e = .error err ↔ ed.buffer.length < e.position + e.deleted ∧
      err = .outOfRange e.position e.deleted ed.buffer.length := by
  rcases Nat.lt_or_ge ed.buffer.length (e.position + e.deleted) with hout | hin
  · rw [apply_of_gt hout]
    constructor
    · intro h
      exact ⟨hout, (Except.error.inj h).symm⟩
    · rintro ⟨-, rfl⟩
      rfl
  · obtain ⟨d, caret, -, -, happly⟩ := exists_edit hin
    rw [happly]
    constructor
    · intro h
      cases h
    · rintro ⟨hout, -⟩
      omega

/-- The check of words refuses a sum that wraps round, whatever the text is. -/
lemma applyWords_of_wraps {position deleted : UInt64} (h : position + deleted < position)
    (ed : Editor) (inserted : List Char) :
    ed.applyWords position deleted inserted =
      .error (.outOfRange position.toNat deleted.toNat ed.buffer.length) := by
  rw [applyWords, checkedAdd?, if_pos h]
  rfl

/-- On a text that words can count, the check of words is that of numbers. -/
lemma applyWords_eq (hlength : ed.buffer.length < UInt64.size) (position deleted : UInt64)
    (inserted : List Char) :
    ed.applyWords position deleted inserted =
      ed.apply ⟨position.toNat, deleted.toNat, inserted⟩ := by
  rw [applyWords, apply, checkedAdd?_eq]
  by_cases hfits : position.toNat + deleted.toNat < UInt64.size
  · have hsum : (position + deleted).toNat = position.toNat + deleted.toNat := by
      rw [UInt64.toNat_add]
      exact Nat.mod_eq_of_lt hfits
    rw [if_pos hfits, Option.filter_some, hsum]
    by_cases hout : position.toNat + deleted.toNat > ed.buffer.length
    · rw [if_neg (by simpa using hout), if_pos hout]
    · rw [if_pos (by simpa using hout), if_neg hout]
  · have hout : position.toNat + deleted.toNat > ed.buffer.length := by omega
    rw [if_neg hfits, Option.filter_none, if_pos hout]

/-- **Which edits are refused.**  An edit is refused if and only if it reaches behind the end of the
text.  It is then told the range that it gave and the length of the text, and the editor stays as it
is.  An edit that lies in the text is made from beginning to end, and leaves the caret in the text.

Where place and length are words, the sum is checked before it is compared.  An edit with a sum that
wraps round is refused in the same words, and on a text that words can count all edits are made or
refused as those of numbers are. -/
theorem apply_refused_exactly (ed : Editor) (position deleted : UInt64) (inserted : List Char) :
    (∀ err, ed.apply ⟨position.toNat, deleted.toNat, inserted⟩ = .error err ↔
      ed.buffer.length < position.toNat + deleted.toNat ∧
        err = .outOfRange position.toNat deleted.toNat ed.buffer.length) ∧
    (position + deleted < position →
      ed.applyWords position deleted inserted =
        .error (.outOfRange position.toNat deleted.toNat ed.buffer.length)) ∧
    (ed.buffer.length < UInt64.size →
      ed.applyWords position deleted inserted =
        ed.apply ⟨position.toNat, deleted.toNat, inserted⟩) ∧
    (ed.buffer.length < position.toNat + deleted.toNat →
      ed.perform (.edit ⟨position.toNat, deleted.toNat, inserted⟩) = ed) ∧
    (position.toNat + deleted.toNat ≤ ed.buffer.length →
      ∃ d caret, (Draft.mk ed.buffer []).edit ed.options
          ⟨position.toNat, deleted.toNat, inserted⟩ = .ok (d, caret) ∧
        caret ≤ d.buffer.length ∧
        ed.apply ⟨position.toNat, deleted.toNat, inserted⟩ =
          .ok (caret, ed.perform (.edit ⟨position.toNat, deleted.toNat, inserted⟩))) ∧
    ∀ (w : Widening) (t : List Char), w.right.length ≤ w.start + (w.splice t).length := by
  refine ⟨fun err => apply_eq_error_iff, fun hwraps => applyWords_of_wraps hwraps ed inserted,
    fun hlength => applyWords_eq hlength position deleted inserted, fun hout => ?_, fun hin => ?_,
    Widening.length_right_le⟩
  · exact after_of_gt hout
  · exact exists_edit (e := ⟨position.toNat, deleted.toNat, inserted⟩) hin

/-- The place of an edit is the greatest word, and the sum wraps round to a place in the text. -/
theorem apply_refused_exactly_wrapped :
    (ofText ['d', 'r', 'a', 'w']).buffer.length < UInt64.size ∧
      (18446744073709551615 : UInt64) + 2 < 18446744073709551615 ∧
      (ofText ['d', 'r', 'a', 'w']).applyWords 18446744073709551615 2 ['x'] =
        .error (.outOfRange 18446744073709551615 2 4) ∧
      (ofText ['d', 'r', 'a', 'w']).apply ⟨18446744073709551615, 2, ['x']⟩ =
        .error (.outOfRange 18446744073709551615 2 4) := by
  have hlength : (ofText ['d', 'r', 'a', 'w']).buffer.length < UInt64.size := by decide
  have hwraps : (18446744073709551615 : UInt64) + 2 < 18446744073709551615 := by decide
  obtain ⟨-, hrefused, hsame, -⟩ :=
    apply_refused_exactly (ofText ['d', 'r', 'a', 'w']) 18446744073709551615 2 ['x']
  exact ⟨hlength, hwraps, hrefused hwraps, (hsame hlength).symm.trans (hrefused hwraps)⟩

end Editor
end MetaPostEditor
