import MetaPostEditor.Proofs.LinearHistory

/-!
# Text and caret under undo and redo

Text and caret of an editor are a *snapshot*.  A zipper of snapshots can follow all operations of an
editor (`Zipper.Follows`).  An edit with an effect is one entry, also if the buffer changes several
times for it; an edit without effect only moves the caret; a text that is typed is one edit for each
key.  The main result, `Editor.run_snapshots`, says that a run of the editor and the zipper never
part: undo and redo never fail, they find something to do exactly when the zipper does, and they
lead to the text and the caret which the zipper has kept.
-/

namespace MetaPostEditor

/-- What is seen of an editor apart from the tags. -/
structure Snapshot where
  text : List Char
  caret : Nat
deriving DecidableEq

/-- The snapshot of an editor. -/
def Editor.snapshot (ed : Editor) : Snapshot :=
  ⟨ed.text, ed.caret⟩

/-! ## The zipper beside an editor -/

namespace Zipper

/-- The zipper after an edit.  An edit without effect moves the caret and leaves the text. -/
def noteEdit (z : Zipper Snapshot) (ed ed' : Editor) : Zipper Snapshot :=
  z.note ed ed' ⟨z.now.text, ed'.caret⟩ ed'.snapshot

/-- The zipper after edits. -/
def noteAll (z : Zipper Snapshot) (ed : Editor) : List Edit → Zipper Snapshot
  | [] => z
  | e :: es => (z.noteEdit ed (ed.after e)).noteAll (ed.after e) es

/-- What an operation that is made on an editor does to the zipper beside it. -/
def Follows (ed : Editor) (z z' : Zipper Snapshot) : Operation → Prop
  | .edit e => z' = z.noteEdit ed (ed.perform (.edit e))
  | .load text => z' = .start ⟨text, 0⟩
  | .set args => z' = z.relimit ed.options.undolevels (ed.set args).2.options.undolevels
  | .undo => z' = z.back
  | .redo => z' = z.forth
  | .markSaved => z' = z
  | .paste text => z' = z.noteEdit ed (ed.perform (.paste text))
  | .type text => ∃ es : List Edit, (∀ e ∈ es, e.deleted + e.inserted.length = 1) ∧
      es.foldl Editor.after ed = ed.perform (.type text) ∧ z' = z.noteAll ed es

/-- What operations that are made on an editor one after the other do to the zipper beside it. -/
inductive Tracks : Editor → Zipper Snapshot → List Operation → Zipper Snapshot → Prop
  | nil (ed : Editor) (z : Zipper Snapshot) : Tracks ed z [] z
  | cons {ed : Editor} {z z' z'' : Zipper Snapshot} {op : Operation} {ops : List Operation}
      (h : Follows ed z z' op) (h' : Tracks (ed.perform op) z' ops z'') :
      Tracks ed z (op :: ops) z''

lemma exists_follows (ed : Editor) (z : Zipper Snapshot) (op : Operation) :
    ∃ z', Follows ed z z' op := by
  cases op with
  | type text =>
    obtain ⟨es, hkeys, hes⟩ := ed.exists_typeText text
    exact ⟨_, es, hkeys, hes.symm, rfl⟩
  | _ => exact ⟨_, rfl⟩

lemma exists_tracks (ed : Editor) (z : Zipper Snapshot) (ops : List Operation) :
    ∃ z', Tracks ed z ops z' := by
  induction ops generalizing ed z with
  | nil => exact ⟨z, .nil ed z⟩
  | cons op ops ih =>
    obtain ⟨z₁, hfollows⟩ := exists_follows ed z op
    obtain ⟨z₂, htracks⟩ := ih (ed.perform op) z₁
    exact ⟨z₂, .cons hfollows htracks⟩

end Zipper

/-! ## The invariant -/

/-- The changes lead from a snapshot to a snapshot, and both carets lie in their texts. -/
structure Transaction.Recorded (t : Transaction) (e : Entry Snapshot) : Prop where
  caretBefore : t.caretBefore = e.before.caret
  caretAfter : t.caretAfter = e.after.caret
  before_le : e.before.caret ≤ e.before.text.length
  after_le : e.after.caret ≤ e.after.text.length
  trail : ∃ x y, Trail t.changes x y ∧ e.before.text = textOf x ∧ e.after.text = textOf y

namespace Editor

variable {ed ed₀ : Editor} {z z' : Zipper Snapshot}

/-- The editor stands where the zipper does, and its history mirrors the zipper. -/
structure Simulated (ed : Editor) (z : Zipper Snapshot) : Prop where
  now : z.now = ed.snapshot
  caret_le : ed.caret ≤ ed.buffer.length
  limited : ed.Limited
  mirrors : z.Mirrors True Transaction.Recorded Snapshot.text ed.history

lemma Edited.caret_le {ed' : Editor} (h : ed.Edited ed') (hcaret : ed.caret ≤ ed.buffer.length) :
    ed'.caret ≤ ed'.buffer.length := by
  cases h with
  | refused => exact hcaret
  | idle hcaret' => exact hcaret'
  | effective hcaret' => exact hcaret'

namespace Simulated

lemma after (h : ed.Simulated z) (e : Edit) :
    (ed.after e).Simulated (z.noteEdit ed (ed.after e)) := by
  have hedited := ed.edited_after e
  have hcaret := hedited.caret_le h.caret_le
  refine ⟨z.now_note hedited fun hsame => ?_, hcaret, h.limited.after e,
    h.mirrors.note h.limited hedited rfl fun cs htrail => ?_⟩
  · rw [h.now, snapshot, snapshot, text, text, hsame]
  · rw [h.now]
    exact ⟨rfl, rfl, (Buffer.length_text _).symm ▸ h.caret_le,
      (Buffer.length_text _).symm ▸ hcaret, _, _, htrail, rfl, rfl⟩

lemma foldl_after (h : ed.Simulated z) (es : List Edit) :
    (es.foldl Editor.after ed).Simulated (z.noteAll ed es) := by
  induction es generalizing ed z with
  | nil => exact h
  | cons e es ih => exact ih (h.after e)

lemma load (ed : Editor) (text : List Char) : (ed.load text).Simulated (.start ⟨text, 0⟩) := by
  obtain ⟨b, hb, hcells⟩ := ed.load_spec text
  have htext : b.text = text := by rw [Buffer.text_eq, hcells, textOf_classify]
  rw [hb]
  refine ⟨?_, Nat.zero_le _, rfl, Zipper.Mirrors.start (fun _ => ⟨rfl, rfl⟩) _⟩
  rw [snapshot, Editor.text, htext]
  rfl

lemma set (h : ed.Simulated z) (args : String) :
    (ed.set args).2.Simulated
      (z.relimit ed.options.undolevels (ed.set args).2.options.undolevels) := by
  have hlimited := h.limited.set args
  obtain ⟨b, hb, htext, -⟩ := ed.set_spec args
  rw [hb] at hlimited ⊢
  refine ⟨?_, ?_, hlimited, h.mirrors.relimit _ _⟩
  · rw [Zipper.now_relimit, h.now, snapshot, snapshot, Editor.text, Editor.text, htext, Editor.text]
  · have hlen := congrArg List.length htext
    rw [Buffer.length_text, Editor.text, Buffer.length_text] at hlen
    exact hlen ▸ h.caret_le

/-- The caret that comes back lies in the text that comes back. -/
lemma replayed {r : Restored} {hist : History} {x y : List Cell}
    {outcome : Except EditError (Option Nat) × Editor} (h : ed.Simulated z)
    (hreplayed : ed.Replayed r hist x y outcome) {s : Snapshot} (htext : s.text = textOf y)
    (hcaret : r.caret = s.caret) (hle : s.caret ≤ s.text.length)
    (hlimit : hist.limit = ed.history.limit) (hnow : z'.now = s)
    (hmirrors : z'.Mirrors True Transaction.Recorded Snapshot.text hist) :
    outcome.1 = .ok (some s.caret) ∧ outcome.2.Simulated z' := by
  obtain ⟨b, rfl, hb, -⟩ := hreplayed
  rw [← htext] at hb
  have hmin : min r.caret b.length = s.caret := by
    rw [← Buffer.length_text, hb, hcaret]
    exact Nat.min_eq_left hle
  rw [hmin]
  refine ⟨rfl, ?_, ?_, hlimit.trans h.limited, hmirrors⟩
  · rw [hnow, snapshot, Editor.text, hb]
  · rw [← Buffer.length_text, hb]
    exact hle

/-- An undo leads to the snapshot before the newest entry. -/
lemma undo (h : ed.Simulated z) :
    ed.undo.1 = .ok (z.past.head?.map (·.before.caret)) ∧ ed.undo.2.Simulated z.back := by
  rcases h.mirrors.undo (h.mirrors.past.own trivial) with
    ⟨hnone, hpast⟩ | ⟨t, ts, e, es, hts, hes, ht, hk, hmirrors⟩
  · rw [undo_of_nil hnone, Zipper.back_of_nil hpast, hpast]
    exact ⟨rfl, h⟩
  · obtain ⟨x, y, htrail, hx, hy⟩ := ht.trail
    have htext : ed.text = e.after.text := (hk.trans (by rw [h.now]; rfl)).symm
    rw [hes]
    exact h.replayed (undo_of_cons hts htrail (htext.trans hy)) hx ht.caretBefore ht.before_le rfl
      (by rw [Zipper.back_of_cons hes]) hmirrors

/-- A redo leads to the snapshot after the entry that was taken back last. -/
lemma redo (h : ed.Simulated z) :
    ed.redo.1 = .ok (z.future.head?.map (·.after.caret)) ∧ ed.redo.2.Simulated z.forth := by
  rcases h.mirrors.redo (h.mirrors.future.own trivial) with
    ⟨hnone, hfuture⟩ | ⟨t, ts, e, es, hts, hes, ht, hk, hmirrors⟩
  · rw [redo_of_nil hnone, Zipper.forth_of_nil hfuture, hfuture]
    exact ⟨rfl, h⟩
  · obtain ⟨x, y, htrail, hx, hy⟩ := ht.trail
    have htext : ed.text = e.before.text := (hk.trans (by rw [h.now]; rfl)).symm
    rw [hes]
    exact h.replayed (redo_of_cons hts htrail (htext.trans hx)) hy ht.caretAfter ht.after_le rfl
      (by rw [Zipper.forth_of_cons hes]) hmirrors

/-- Editor and zipper stay together in every operation. -/
lemma perform (h : ed.Simulated z) {op : Operation} (hz : Zipper.Follows ed z z' op) :
    (ed.perform op).Simulated z' := by
  cases op with
  | edit e =>
    subst hz
    exact h.after e
  | load text =>
    subst hz
    exact load ed text
  | set args =>
    subst hz
    exact h.set args
  | undo =>
    subst hz
    exact h.undo.2
  | redo =>
    subst hz
    exact h.redo.2
  | markSaved =>
    subst hz
    exact ⟨h.now, h.caret_le, h.limited, h.mirrors⟩
  | paste text =>
    rw [Zipper.Follows] at hz
    rw [perform_paste] at hz ⊢
    subst hz
    exact h.after _
  | type text =>
    obtain ⟨es, -, hes, rfl⟩ := hz
    rw [← hes]
    exact h.foldl_after es

lemma tracks {ops : List Operation} (h : ed.Simulated z) (htracks : Zipper.Tracks ed z ops z') :
    (ed.run ops).Simulated z' := by
  induction htracks with
  | nil => exact h
  | cons hfollows _ ih => exact ih (h.perform hfollows)

end Simulated

lemma Initial.simulated (h : Initial ed) : ed.Simulated (.start ed.snapshot) := by
  cases h with
  | empty options =>
    exact ⟨rfl, Nat.zero_le _, rfl, Zipper.Mirrors.start (fun _ => ⟨rfl, rfl⟩) _⟩
  | ofText text =>
    have hload := Simulated.load (Editor.empty Options.default) text
    rw [Editor.ofText, ← hload.now]
    exact hload

/-- A zipper stands beside every editor that comes about by operations. -/
lemma Reachable.simulated (h : ed.Reachable) : ∃ z, ed.Simulated z := by
  obtain ⟨ed₀, ops, hinit, rfl⟩ := h
  obtain ⟨z, htracks⟩ := Zipper.exists_tracks ed₀ (.start ed₀.snapshot) ops
  exact ⟨z, hinit.simulated.tracks htracks⟩

/-- The text is the one that the newest transaction led to. -/
lemma Reachable.undo_trail (h : ed.Reachable) :
    ed.history.undoStack = [] ∨ ∃ t ts x y, ed.history.undoStack = t :: ts ∧
      Trail t.changes x y ∧ ed.text = textOf y := by
  obtain ⟨z, hz⟩ := h.simulated
  rcases hz.mirrors.undo (hz.mirrors.past.own trivial) with
    ⟨hnone, -⟩ | ⟨t, ts, e, es, hts, -, ht, hk, -⟩
  · exact .inl hnone
  · obtain ⟨x, y, htrail, -, hy⟩ := ht.trail
    refine .inr ⟨t, ts, x, y, hts, htrail, ?_⟩
    rw [← hy, hk, hz.now]
    rfl

/-- The text is the one from which the transaction led that was taken back last. -/
lemma Reachable.redo_trail (h : ed.Reachable) :
    ed.history.redoStack = [] ∨ ∃ t ts x y, ed.history.redoStack = t :: ts ∧
      Trail t.changes x y ∧ ed.text = textOf x := by
  obtain ⟨z, hz⟩ := h.simulated
  rcases hz.mirrors.redo (hz.mirrors.future.own trivial) with
    ⟨hnone, -⟩ | ⟨t, ts, e, es, hts, -, ht, hk, -⟩
  · exact .inl hnone
  · obtain ⟨x, y, htrail, hx, -⟩ := ht.trail
    refine .inr ⟨t, ts, x, y, hts, htrail, ?_⟩
    rw [← hx, hk, hz.now]
    rfl

/-- **Undo and redo go through a linear history of snapshots.**  A zipper can follow every run of an
editor.  Whenever it does, it shows the text and the caret of the editor, and the caret lies in the
text.  Undo and redo do not fail, they return nothing exactly when their side of the zipper is
empty, and otherwise they lead to the text and the caret that the zipper leads to and return that
caret. -/
theorem run_snapshots (hinit : Initial ed₀) (ops : List Operation) :
    (∃ z, Zipper.Tracks ed₀ (.start ed₀.snapshot) ops z) ∧
      ∀ z, Zipper.Tracks ed₀ (.start ed₀.snapshot) ops z →
        (ed₀.run ops).snapshot = z.now ∧
        (ed₀.run ops).caret ≤ (ed₀.run ops).text.length ∧
        (ed₀.run ops).undo.1 = .ok (z.past.head?.map (·.before.caret)) ∧
        (ed₀.run ops).undo.2.snapshot = z.back.now ∧
        (ed₀.run ops).redo.1 = .ok (z.future.head?.map (·.after.caret)) ∧
        (ed₀.run ops).redo.2.snapshot = z.forth.now := by
  refine ⟨Zipper.exists_tracks _ _ _, fun z htracks => ?_⟩
  have h := hinit.simulated.tracks htracks
  refine ⟨h.now.symm, ?_, h.undo.1, h.undo.2.now.symm, h.redo.1, h.redo.2.now.symm⟩
  exact (Buffer.length_text _).symm ▸ h.caret_le

/-- A quoted word is pasted in two halves, and the second half is taken back. -/
theorem run_snapshots_pasted_halves :
    Initial (ofText ['i', 'f']) ∧
      ∃ z, Zipper.Tracks (ofText ['i', 'f']) (.start (ofText ['i', 'f']).snapshot)
          [.edit ⟨1, 1, [' ', '"']⟩, .paste ['f', 'i', '"'], .undo] z ∧
        ((ofText ['i', 'f']).run
          [.edit ⟨1, 1, [' ', '"']⟩, .paste ['f', 'i', '"'], .undo]).snapshot = z.now ∧
        z.now = ⟨['i', ' ', '"'], 3⟩ := by
  obtain ⟨⟨z, htracks⟩, hall⟩ := run_snapshots (.ofText ['i', 'f'])
    [.edit ⟨1, 1, [' ', '"']⟩, .paste ['f', 'i', '"'], .undo]
  have hnow := (hall z htracks).1
  exact ⟨.ofText _, z, htracks, hnow, hnow.symm.trans (by decide)⟩

end Editor
end MetaPostEditor
