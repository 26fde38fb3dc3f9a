import MetaPostEditor.Proofs.LinearHistory

/-!
# Edits at the end of the text

An edit that reaches the end of the text leaves no old tags behind it, so it keeps an editor fresh
even when it opens or closes a string or a comment.  Undo and redo bring tags back from the history
that may be old.  The main result, `Editor.fresh_of_atEnd`, says that all the same an editor stays
fresh as long as all edits are made at the end, whatever else is done between them.

The invariant ties each recorded transaction to the texts before and after it: its changes lead from
the scan of the one to the scan of the other, both in the mode in which it was made
(`Transaction.Scanned`).  In another mode only the texts are right, but then the tags are made anew.
-/

namespace MetaPostEditor

/-- The changes lead from the scan of a text to the scan of a text. -/
def Transaction.Scanned (t : Transaction) (e : Entry (List Char)) : Prop :=
  Trail t.changes (classify t.comments .normal e.before) (classify t.comments .normal e.after)

namespace Editor

variable {ed ed₀ : Editor}

/-- The operation makes no edit other than one that reaches the end of the text. -/
def AtEnd (ed : Editor) : Operation → Prop
  | .edit e => e.position + e.deleted = ed.buffer.length
  | .paste _ => False
  | .type _ => False
  | _ => True

instance (ed : Editor) : (op : Operation) → Decidable (ed.AtEnd op)
  | .edit _ => inferInstanceAs (Decidable (_ = _))
  | .paste _ | .type _ => inferInstanceAs (Decidable False)
  | .load _ | .set _ | .undo | .redo | .markSaved => inferInstanceAs (Decidable True)

/-- The editor is fresh, and it was so whenever a transaction was recorded. -/
structure Traceable (ed : Editor) : Prop where
  fresh : ed.buffer.cells = classify ed.options.comments .normal ed.text
  limited : ed.Limited
  history : ∃ z : Zipper (List Char), z.now = ed.text ∧
    z.Mirrors True Transaction.Scanned id ed.history

lemma traceable_of_empty {b : Buffer} {o : Options} {caret : Nat}
    (hb : b.cells = classify o.comments .normal b.text) :
    Traceable ⟨b, o, History.empty o.undolevels.toNat, caret⟩ :=
  ⟨hb, rfl, .start b.text, rfl, Zipper.Mirrors.start (fun _ => ⟨rfl, rfl⟩) _⟩

lemma traceable_load (ed : Editor) (text : List Char) : (ed.load text).Traceable := by
  obtain ⟨b, hb, hcells⟩ := ed.load_spec text
  rw [hb]
  refine traceable_of_empty ?_
  rw [Buffer.text_eq, hcells, textOf_classify]

lemma Initial.traceable (h : Initial ed) : ed.Traceable := by
  cases h with
  | empty options => exact traceable_of_empty (classify_nil _ _).symm
  | ofText text => exact traceable_load _ _

/-! ## Edits -/

lemma fresh_after {e : Edit}
    (hfresh : ed.buffer.cells = classify ed.options.comments .normal ed.text)
    (hend : e.position + e.deleted = ed.buffer.length) :
    (ed.after e).buffer.cells = classify ed.options.comments .normal (ed.after e).text := by
  obtain ⟨d, head, -, hmakes, happly⟩ := ed.apply_eq e hend.le
  have hnone : ed.buffer.cells.drop (e.position + e.deleted) = [] := by
    rw [hend, Buffer.length_eq, List.drop_length]
  have htext := hmakes.text
  have hcells := hmakes.fresh hfresh
  rw [hnone, textOf_nil, List.append_nil] at htext
  rw [hnone, textOf_nil, reach, List.takeWhile_nil, List.drop_nil, List.append_nil,
    List.append_nil] at hcells
  rw [after, happly]
  exact hcells.trans (by rw [text, htext])

lemma Traceable.after {e : Edit} (h : ed.Traceable)
    (hend : e.position + e.deleted = ed.buffer.length) : (ed.after e).Traceable := by
  have hfresh := fresh_after h.fresh hend
  have hedited := ed.edited_after e
  have hoptions : (ed.after e).options = ed.options := hedited.options
  obtain ⟨z, hnow, hmirrors⟩ := h.history
  refine ⟨by rw [hoptions, hfresh], h.limited.after e,
    z.note ed (ed.after e) z.now (ed.after e).text, z.now_note hedited fun hsame => ?_,
    hmirrors.note h.limited hedited rfl fun cs htrail => ?_⟩
  · rw [hnow, text, text, hsame]
  · rw [h.fresh, hfresh, ← hnow] at htrail
    exact htrail

/-! ## Other operations -/

lemma Traceable.set (h : ed.Traceable) (args : String) : (ed.set args).2.Traceable := by
  have hlimited := h.limited.set args
  obtain ⟨z, hnow, hmirrors⟩ := h.history
  obtain ⟨b, hb, htext, hsame, hnew⟩ := ed.set_spec args
  rw [hb] at hlimited ⊢
  refine ⟨?_, hlimited, z.relimit _ _, ?_, hmirrors.relimit _ _⟩
  · change b.cells = classify (ed.options.set args).2.comments .normal b.text
    rw [htext]
    by_cases hmode : (ed.options.set args).2.comments = ed.options.comments
    · rw [hsame hmode, hmode]
      exact h.fresh
    · exact hnew hmode
  · rw [Zipper.now_relimit, hnow]
    exact htext.symm

/-- Tags come back as they were made, if the mode is the one they were made in.  Otherwise they are
made anew. -/
lemma Traceable.replayed {r : Restored} {hist : History} {old new : List Char}
    {outcome : Except EditError (Option Nat) × Editor} {z : Zipper (List Char)} (h : ed.Traceable)
    (hold : ed.text = old)
    (hreplayed : ed.Replayed r hist (classify r.comments .normal old)
      (classify r.comments .normal new) outcome)
    (hlimit : hist.limit = ed.history.limit) (hnow : z.now = new)
    (hmirrors : z.Mirrors True Transaction.Scanned id hist) : outcome.2.Traceable := by
  obtain ⟨b, rfl, htext, hsame, hnew⟩ := hreplayed
  rw [textOf_classify] at htext hnew
  refine ⟨?_, hlimit.trans h.limited, z, hnow.trans htext.symm, hmirrors⟩
  change b.cells = classify ed.options.comments .normal b.text
  rw [htext]
  -- the recorded tags are right only in the mode in which they were made
  by_cases hmode : r.comments = ed.options.comments
  · have hcells := h.fresh
    rw [hold, ← hmode] at hcells
    rw [← hmode]
    exact hsame hmode hcells
  · exact hnew hmode

lemma Traceable.undo (h : ed.Traceable) : ed.undo.2.Traceable := by
  obtain ⟨z, hnow, hmirrors⟩ := h.history
  rcases hmirrors.undo (hmirrors.past.own trivial) with
    ⟨hnone, -⟩ | ⟨t, ts, e, es, hts, hes, ht, hk, hmirrors'⟩
  · rw [undo_of_nil hnone]
    exact h
  · have hold : ed.text = e.after := hnow.symm.trans hk.symm
    exact h.replayed hold (undo_of_cons hts ht (by rw [hold, textOf_classify])) rfl
      (by rw [Zipper.back_of_cons hes]) hmirrors'

lemma Traceable.redo (h : ed.Traceable) : ed.redo.2.Traceable := by
  obtain ⟨z, hnow, hmirrors⟩ := h.history
  rcases hmirrors.redo (hmirrors.future.own trivial) with
    ⟨hnone, -⟩ | ⟨t, ts, e, es, hts, hes, ht, hk, hmirrors'⟩
  · rw [redo_of_nil hnone]
    exact h
  · have hold : ed.text = e.before := hnow.symm.trans hk.symm
    exact h.replayed hold (redo_of_cons hts ht (by rw [hold, textOf_classify])) rfl
      (by rw [Zipper.forth_of_cons hes]) hmirrors'

lemma Traceable.perform (h : ed.Traceable) {op : Operation} (hop : ed.AtEnd op) :
    (ed.perform op).Traceable := by
  cases op with
  | edit e => exact h.after hop
  | load text => exact traceable_load ed text
  | set args => exact h.set args
  | undo => exact h.undo
  | redo => exact h.redo
  | markSaved => exact ⟨h.fresh, h.limited, h.history⟩
  | paste text => exact hop.elim
  | type text => exact hop.elim

/-- **Edits at the end keep an editor fresh.**  In every state of a run in which texts are loaded
and saved, options set, edits taken back and made again, and edits made that reach the end of the
text, the tags are those of a scan of the whole text. -/
theorem fresh_of_atEnd (hinit : Initial ed₀) {ops : List Operation} (hops : Along AtEnd ed₀ ops)
    (n : Nat) : (ed₀.run (ops.take n)).Fresh := by
  have htraceable : (ed₀.run (ops.take n)).Traceable :=
    run_invariant (fun _ _ h hop => h.perform hop) hinit.traceable (hops.take n)
  exact (fresh_iff _).2 htraceable.fresh

/-- A string is opened at the end, the mode changes, the edit is taken back and made again. -/
theorem fresh_of_atEnd_opened_string :
    Initial (ofText ['i', 'f']) ∧
      Along AtEnd (ofText ['i', 'f'])
        [.edit ⟨2, 0, [' ', '"', '%']⟩, .edit ⟨1, 4, ['i', '\n', '"']⟩, .undo, .set "comments",
          .undo, .redo] ∧
      ((ofText ['i', 'f']).run
        [.edit ⟨2, 0, [' ', '"', '%']⟩, .edit ⟨1, 4, ['i', '\n', '"']⟩, .undo, .set "comments",
          .undo, .redo]).Fresh := by
  have hops : Along AtEnd (ofText ['i', 'f'])
      [.edit ⟨2, 0, [' ', '"', '%']⟩, .edit ⟨1, 4, ['i', '\n', '"']⟩, .undo, .set "comments",
        .undo, .redo] :=
    ⟨by decide, by decide, trivial, trivial, trivial, trivial, trivial⟩
  exact ⟨.ofText _, hops, fresh_of_atEnd (.ofText _) hops 6⟩

end Editor
end MetaPostEditor
