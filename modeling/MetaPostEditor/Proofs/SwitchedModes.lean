import MetaPostEditor.Proofs.WholeWords

/-!
# Undo after options have been set

When comments are switched on or off, all tags are made anew, and the history does not hear of it.
A transaction only remembers whether comments were shown when it was made, and an undo compares that
with what holds now:

* If comments are shown otherwise now, all tags are made anew once more after the undo.
* If they have not been switched since, the tags are found as the transaction left them, and they
  come back as they were before it.
* If they have been switched to and fro, the tags that the transaction holds come back among tags
  that were made in between.  This does no harm as long as the transaction left the text tagged as a
  scan of the whole text tags it.  Otherwise the outcome can be a mixture of the two
  (`Editor.undo_after_settings_mixed`).

The main result, `Editor.undo_after_settings`, says so, and that it depends on one state only
whether a mixture can come out: on the undo right after all tags have been made anew.
-/

namespace MetaPostEditor

/-! ## Changes look at characters and tags only -/

namespace Buffer

variable {b₁ b₂ : Buffer}

lemma perform_congr (h : b₁.cells = b₂.cells) (c : Change) :
    (∃ b₁' b₂', b₁.perform c = .ok b₁' ∧ b₂.perform c = .ok b₂' ∧ b₁'.cells = b₂'.cells) ∨
      ∃ e, b₁.perform c = .error e ∧ b₂.perform c = .error e := by
  have hcheck : b₁.checkRange c.start (c.start + c.removed.length) =
      b₂.checkRange c.start (c.start + c.removed.length) := by
    rw [checkRange, checkRange, length_eq, length_eq, h]
  cases hrange : b₂.checkRange c.start (c.start + c.removed.length) with
  | error e =>
    refine .inr ⟨e, ?_, ?_⟩
    · rw [perform, hcheck, hrange]
      rfl
    · rw [perform, hrange]
      rfl
  | ok u =>
    refine .inl ⟨_, _, by rw [perform, hcheck, hrange]; rfl, by rw [perform, hrange]; rfl, ?_⟩
    rw [cells_splice _ _ (Nat.le_add_right _ _), cells_splice _ _ (Nat.le_add_right _ _), h]

lemma performAll_congr (h : b₁.cells = b₂.cells) (cs : List Change) :
    (b₁.performAll cs).2.cells = (b₂.performAll cs).2.cells := by
  induction cs generalizing b₁ b₂ with
  | nil => exact h
  | cons c cs ih =>
    rw [performAll, performAll]
    rcases perform_congr h c with ⟨b₁', b₂', h₁, h₂, hcells⟩ | ⟨e, h₁, h₂⟩
    · rw [h₁, h₂]
      exact ih hcells
    · rw [h₁, h₂]
      exact h

end Buffer

namespace Editor

variable {ed ed' : Editor}

/-! ## Options set after an edit -/

/-- The operation sets options and leaves it possible to undo something. -/
def SetsOptions (ed : Editor) : Operation → Prop
  | .set args => (ed.set args).2.options.undolevels ≠ 0
  | _ => False

instance (ed : Editor) : (op : Operation) → Decidable (ed.SetsOptions op)
  | .set _ => inferInstanceAs (Decidable (_ ≠ _))
  | .edit _ | .load _ | .undo | .redo | .markSaved | .paste _ | .type _ =>
    inferInstanceAs (Decidable False)

/-- The tags are those of another editor with the same text, or those of a scan of the text. -/
def Unmixed (ed ed' : Editor) : Prop :=
  ed'.buffer.tags = ed.buffer.tags ∨ ed'.Fresh

instance (ed ed' : Editor) : Decidable (ed.Unmixed ed') :=
  inferInstanceAs (Decidable (_ ∨ _))

lemma undoStack_set {args : String} {t : Transaction} {ts : List Transaction}
    (hstack : ed.history.undoStack = t :: ts)
    (hlevels : (ed.set args).2.options.undolevels ≠ 0) :
    ∃ ts', (ed.set args).2.history.undoStack = t :: ts' := by
  obtain ⟨b, hb, -⟩ := ed.set_spec args
  rw [hb] at hlevels ⊢
  change ∃ ts', (ed.history.relimit _ _).undoStack = t :: ts'
  rw [History.relimit]
  split
  · have hpos : (ed.options.set args).2.undolevels.toNat ≠ 0 := by
      intro hzero
      exact hlevels (UInt64.toNat_inj.1 hzero)
    obtain ⟨n, hn⟩ := Nat.exists_eq_succ_of_ne_zero hpos
    refine ⟨ts.take n, ?_⟩
    rw [hn, History.setLimit, hstack, List.take_succ_cons]
  · exact ⟨ts, hstack⟩

/-- Setting options changes no text, keeps the newest transaction, and leaves either all tags or
none as they were. -/
lemma run_settings {t : Transaction} {ts : List Transaction} {ops : List Operation}
    (hstack : ed.history.undoStack = t :: ts) (hops : Along SetsOptions ed ops) :
    (∃ ts', (ed.run ops).history.undoStack = t :: ts') ∧ (ed.run ops).text = ed.text ∧
      (Along KeepsComments ed ops →
        (ed.run ops).buffer = ed.buffer ∧ (ed.run ops).options.comments = ed.options.comments) ∧
      (((ed.run ops).buffer = ed.buffer ∧ (ed.run ops).options.comments = ed.options.comments) ∨
        (ed.run ops).buffer.cells =
          classify (ed.run ops).options.comments .normal ed.text) := by
  induction ops generalizing ed ts with
  | nil => exact ⟨⟨ts, hstack⟩, rfl, fun _ => ⟨rfl, rfl⟩, .inl ⟨rfl, rfl⟩⟩
  | cons op ops ih =>
    cases op with
    | set args =>
      obtain ⟨ts', hstack'⟩ := undoStack_set hstack hops.1
      obtain ⟨hnewest, htext, hkept, hcells⟩ := ih hstack' hops.2
      obtain ⟨b, hb, hbtext, hsame, hnew⟩ := ed.set_spec args
      have hset : ed.run (.set args :: ops) = (ed.set args).2.run ops := rfl
      have htext' : (ed.set args).2.text = ed.text := by
        rw [hb]
        exact hbtext
      rw [htext'] at htext hcells
      rw [hset]
      refine ⟨hnewest, htext, fun hkeeps => ?_, ?_⟩
      · obtain ⟨hbuffer, hcomments⟩ := hkept hkeeps.2
        have hmode : (ed.set args).2.options.comments = ed.options.comments := hkeeps.1
        refine ⟨hbuffer.trans ?_, hcomments.trans hmode⟩
        rw [hb] at hmode ⊢
        exact hsame hmode
      · rcases hcells with ⟨hbuffer, hcomments⟩ | hscan
        · -- this is the last time that tags can have been made
          by_cases hmode : (ed.options.set args).2.comments = ed.options.comments
          · refine .inl ⟨hbuffer.trans ?_, hcomments.trans ?_⟩
            · rw [hb]
              exact hsame hmode
            · rw [hb]
              exact hmode
          · refine .inr ?_
            rw [hbuffer, hcomments, hb]
            exact hnew hmode
        · exact .inr hscan
    | edit | load | undo | redo | markSaved | paste | type => exact hops.1.elim

/-! ## The undo -/

/-- The transaction of an edit with an effect, which is the newest one after it. -/
lemma exists_newest {e : Edit} (hlimited : ed.Limited)
    (heffective : (ed.after e).buffer.revision ≠ ed.buffer.revision)
    (hlevels : ed.options.undolevels ≠ 0) :
    (ed.after e).options = ed.options ∧
      ∃ t ts, (ed.after e).history.undoStack = t :: ts ∧ t.comments = ed.options.comments ∧
        Trail t.changes ed.buffer.cells (ed.after e).buffer.cells := by
  have hedited := ed.edited_after e
  generalize ed.after e = ed' at hedited heffective ⊢
  cases hedited with
  | refused => exact absurd rfl heffective
  | idle => exact absurd rfl heffective
  | @effective b cs caret hcaret htrail hcount =>
    have hpos : ed.history.limit ≠ 0 := by
      rw [hlimited]
      intro hzero
      exact hlevels (UInt64.toNat_inj.1 hzero)
    obtain ⟨n, hn⟩ := Nat.exists_eq_succ_of_ne_zero hpos
    refine ⟨rfl, ⟨cs, ed.caret, caret, ed.options.comments⟩, ed.history.undoStack.take n, ?_, rfl,
      htrail⟩
    rw [History.push, hn, List.take_succ_cons]

/-- An undo succeeds and brings back the text; in another mode it makes all tags anew, and in its
own mode it brings back the tags if it finds those it left. -/
lemma undo_of_newest {t : Transaction} {ts : List Transaction} {x y : List Cell}
    (hstack : ed.history.undoStack = t :: ts) (htrail : Trail t.changes x y)
    (htext : ed.text = textOf y) :
    (∃ caret, ed.undo.1 = .ok (some caret)) ∧ ed.undo.2.text = textOf x ∧
      (t.comments ≠ ed.options.comments → ed.undo.2.Fresh) ∧
      (t.comments = ed.options.comments → ed.buffer.cells = y → ed.undo.2.buffer.cells = x) := by
  obtain ⟨b, hb, hbtext, hsame, hnew⟩ := undo_of_cons hstack htrail htext
  rw [hb]
  refine ⟨⟨_, rfl⟩, hbtext, fun hmode => ?_, hsame⟩
  rw [fresh_iff, hbtext]
  exact hnew hmode

/-- In its own mode a transaction is taken back by its changes and by nothing else. -/
lemma undo_in_mode {t : Transaction} {ts : List Transaction} {x y : List Cell}
    (hstack : ed.history.undoStack = t :: ts) (htrail : Trail t.changes x y)
    (htext : ed.text = textOf y) (hmode : t.comments = ed.options.comments) :
    ed.undo.2.options = ed.options ∧ ed.undo.2.buffer =
      (ed.buffer.performAll (t.changes.reverse.map Change.inverse)).2 := by
  obtain ⟨b₁, hperform, -⟩ := Buffer.performAll_of_trail htrail.reverse htext
  obtain ⟨b, hb, -, hsame, -⟩ :=
    travel_of_step (History.undo_of_performAll hstack hperform)
  rw [undo, hb, hperform]
  exact ⟨rfl, hsame hmode⟩

/-- Where all tags have been made anew in the mode of the newest transaction, it does not matter for
an undo by which settings. -/
lemma unmixed_undo_iff {ed₀ ed₁ : Editor} {t : Transaction} {ts₀ ts₁ : List Transaction}
    (hstack₀ : ed₀.history.undoStack = t :: ts₀) (hmode₀ : t.comments = ed₀.options.comments)
    (htrail : Trail t.changes ed.buffer.cells ed₀.buffer.cells)
    (hstack₁ : ed₁.history.undoStack = t :: ts₁) (hmode₁ : t.comments = ed₁.options.comments)
    (hcells : ed₁.buffer.cells = classify t.comments .normal ed₀.text) :
    ed.Unmixed ed₁.undo.2 ↔ ed.Unmixed ed₀.restyleAll.undo.2 := by
  obtain ⟨b, hb, hscan⟩ := ed₀.restyleAll_spec
  rw [← hmode₀] at hscan
  have htext₁ : ed₁.text = textOf ed₀.buffer.cells := by
    rw [text, Buffer.text_eq, hcells, textOf_classify]
    exact Buffer.text_eq _
  have htext₂ : ed₀.restyleAll.text = textOf ed₀.buffer.cells := by
    rw [hb, text, Buffer.text_eq, hscan, textOf_classify]
    exact Buffer.text_eq _
  have hstack₂ : ed₀.restyleAll.history.undoStack = t :: ts₀ := by
    rw [hb, hstack₀]
  have hmode₂ : t.comments = ed₀.restyleAll.options.comments := by
    rw [hb, hmode₀]
  obtain ⟨hoptions₁, hbuffer₁⟩ := undo_in_mode hstack₁ htrail htext₁ hmode₁
  obtain ⟨hoptions₂, hbuffer₂⟩ := undo_in_mode hstack₂ htrail htext₂ hmode₂
  have hundo : ed₁.undo.2.buffer.cells = ed₀.restyleAll.undo.2.buffer.cells := by
    rw [hbuffer₁, hbuffer₂]
    refine Buffer.performAll_congr ?_ _
    rw [hb, hcells, hscan]
  have htags : ed₁.undo.2.buffer.tags = ed₀.restyleAll.undo.2.buffer.tags := by
    rw [Buffer.tags, Buffer.tags, hundo]
  rw [Unmixed, Unmixed, fresh_iff, fresh_iff, Buffer.text_eq, Buffer.text_eq, htags, hundo,
    hoptions₁, hoptions₂, ← hmode₁, ← hmode₂]

/-- Comments switched to and fro: the options are as before, and all tags have been made anew. -/
lemma run_switched (ed : Editor) (hlevels : ed.options.undolevels ≠ 0) :
    Along SetsOptions ed [.set "comments!", .set "comments!"] ∧
      (ed.run [.set "comments!", .set "comments!"]).options = ed.options ∧
      (ed.run [.set "comments!", .set "comments!"]).buffer.cells =
        classify ed.options.comments .normal ed.text := by
  have hset : ∀ o : Options, (o.set "comments!").2 = { o with comments := !o.comments } :=
    fun _ => rfl
  obtain ⟨b₁, hb₁, htext₁, -⟩ := ed.set_spec "comments!"
  obtain ⟨b₂, hb₂, -, -, hnew₂⟩ := (ed.set "comments!").2.set_spec "comments!"
  have hrun : ed.run [.set "comments!", .set "comments!"] =
      ((ed.set "comments!").2.set "comments!").2 := rfl
  have hthere : (ed.set "comments!").2.options =
      { ed.options with comments := !ed.options.comments } := by
    rw [hb₁, hset]
  have hback : ((ed.set "comments!").2.options.set "comments!").2 = ed.options := by
    rw [hthere, hset, Bool.not_not]
  have htext : (ed.set "comments!").2.text = ed.text := by
    rw [hb₁]
    exact htext₁
  have hswitched : ed.options.comments ≠ (ed.set "comments!").2.options.comments := by
    rw [hthere]
    exact (Bool.eq_not_self _).1
  rw [hback, htext] at hnew₂
  refine ⟨⟨?_, ?_, trivial⟩, ?_, ?_⟩
  · show (ed.set "comments!").2.options.undolevels ≠ 0
    rw [hthere]
    exact hlevels
  · show ((ed.set "comments!").2.set "comments!").2.options.undolevels ≠ 0
    rw [hb₂, hback]
    exact hlevels
  · rw [hrun, hb₂]
    exact hback
  · rw [hrun, hb₂]
    exact hnew₂ hswitched

/-- **Undo after options have been set.**  After an edit with an effect options are set, and always
so that something can be undone.  An undo then brings back the text.  If comments are shown
otherwise than when the edit was made, the tags are those of a scan.  If they were never switched in
between, the tags are those before the edit.  Neither can be missed after any settings if and only
if neither is missed when all tags are made anew and the edit is then taken back; and this is so if
the edit left the text tagged as a scan tags it. -/
theorem undo_after_settings (hreach : ed.Reachable) {e : Edit}
    (heffective : (ed.after e).buffer.revision ≠ ed.buffer.revision)
    (hlevels : ed.options.undolevels ≠ 0) :
    (∀ ops, Along SetsOptions (ed.after e) ops →
      (∃ caret, ((ed.after e).run ops).undo.1 = .ok (some caret)) ∧
      ((ed.after e).run ops).undo.2.text = ed.text ∧
      (((ed.after e).run ops).options.comments ≠ ed.options.comments →
        ((ed.after e).run ops).undo.2.Fresh) ∧
      (Along KeepsComments (ed.after e) ops →
        ((ed.after e).run ops).undo.2.buffer.tags = ed.buffer.tags)) ∧
    ((∀ ops, Along SetsOptions (ed.after e) ops →
        ed.Unmixed ((ed.after e).run ops).undo.2) ↔
      ed.Unmixed (ed.after e).restyleAll.undo.2) ∧
    ((ed.after e).Fresh → ed.Unmixed (ed.after e).restyleAll.undo.2) := by
  obtain ⟨hoptions, t, ts, hstack, hmode, htrail⟩ :=
    exists_newest hreach.limited heffective hlevels
  have hmode' : t.comments = (ed.after e).options.comments := by
    rw [hoptions, hmode]
  have htext : (ed.after e).text = textOf (ed.after e).buffer.cells := Buffer.text_eq _
  refine ⟨fun ops hops => ?_, ⟨fun hall => ?_, fun hrestyled ops hops => ?_⟩, fun hfresh => ?_⟩
  · obtain ⟨⟨ts', hstack'⟩, htext', hkept, -⟩ := run_settings hstack hops
    obtain ⟨hsome, hback, hnew, hsame⟩ := undo_of_newest hstack' htrail (htext'.trans htext)
    refine ⟨hsome, hback, fun hne => hnew ?_, fun hkeeps => ?_⟩
    · rw [hmode]
      exact hne.symm
    · obtain ⟨hbuffer, hcomments⟩ := hkept hkeeps
      rw [Buffer.tags, hsame (by rw [hcomments, hmode']) (by rw [hbuffer])]
      rfl
  · -- to and fro is one way to have all tags made anew
    obtain ⟨hops, hoptions', hcells'⟩ := (ed.after e).run_switched (by rw [hoptions]; exact hlevels)
    obtain ⟨⟨ts', hstack'⟩, -⟩ := run_settings hstack hops
    rw [← unmixed_undo_iff hstack hmode' htrail hstack' (by rw [hoptions', hmode'])
      (by rw [hcells', hmode'])]
    exact hall _ hops
  · obtain ⟨⟨ts', hstack'⟩, htext', -, hcases⟩ := run_settings hstack hops
    obtain ⟨-, hback, hnew, hsame⟩ := undo_of_newest hstack' htrail (htext'.trans htext)
    rcases hcases with ⟨hbuffer, hcomments⟩ | hscan
    · refine .inl ?_
      rw [Buffer.tags, hsame (by rw [hcomments, hmode']) (by rw [hbuffer])]
      rfl
    · by_cases hown : t.comments = ((ed.after e).run ops).options.comments
      · rw [← hown] at hscan
        exact (unmixed_undo_iff hstack hmode' htrail hstack' hown hscan).2 hrestyled
      · exact .inr (hnew hown)
  · obtain ⟨b, hb, hscan⟩ := (ed.after e).restyleAll_spec
    rw [fresh_iff] at hfresh
    have hcells : b.cells = (ed.after e).buffer.cells := hscan.trans hfresh.symm
    have htext' : (ed.after e).restyleAll.text = textOf (ed.after e).buffer.cells := by
      rw [hb, text, Buffer.text_eq, hcells]
    have hstack' : (ed.after e).restyleAll.history.undoStack = t :: ts := by
      rw [hb]
      exact hstack
    obtain ⟨-, -, -, hsame⟩ := undo_of_newest hstack' htrail htext'
    refine .inl ?_
    rw [Buffer.tags, hsame (by rw [hb, hmode']) (by rw [hb, hcells])]
    rfl

/-- A quote is set at the start of a text of two lines, and the second line keeps its old tags until
comments are switched: an undo after one switch gives the tags of a scan, and some settings make an
undo give a mixture. -/
theorem undo_after_settings_stale_line :
    (ofText ['a', '\n', 'b']).Reachable ∧
      ((ofText ['a', '\n', 'b']).after ⟨0, 0, ['"']⟩).buffer.revision ≠
        (ofText ['a', '\n', 'b']).buffer.revision ∧
      (ofText ['a', '\n', 'b']).options.undolevels ≠ 0 ∧
      Along SetsOptions ((ofText ['a', '\n', 'b']).after ⟨0, 0, ['"']⟩) [.set "comments"] ∧
      (((ofText ['a', '\n', 'b']).after ⟨0, 0, ['"']⟩).run [.set "comments"]).undo.2.Fresh ∧
      ¬ ∀ ops, Along SetsOptions ((ofText ['a', '\n', 'b']).after ⟨0, 0, ['"']⟩) ops →
        (ofText ['a', '\n', 'b']).Unmixed
          (((ofText ['a', '\n', 'b']).after ⟨0, 0, ['"']⟩).run ops).undo.2 := by
  have hreach : (ofText ['a', '\n', 'b']).Reachable := ⟨_, [], .ofText _, rfl⟩
  have hops : Along SetsOptions ((ofText ['a', '\n', 'b']).after ⟨0, 0, ['"']⟩)
      [.set "comments"] := ⟨by decide, trivial⟩
  obtain ⟨hundo, hall, -⟩ := undo_after_settings hreach (e := ⟨0, 0, ['"']⟩) (by decide) (by decide)
  refine ⟨hreach, by decide, by decide, hops, (hundo _ hops).2.2.1 (by decide), fun h => ?_⟩
  exact absurd (hall.1 h) (by decide)

/-- The quote is set, comments are switched on and off, and the quote is taken back: the text is as
before, and the second line is shown as part of a string that no quote opens. -/
theorem undo_after_settings_mixed :
    ((ofText ['a', '\n', 'b']).run [.edit ⟨0, 0, ['"']⟩, .set "comments", .set "nocomments",
        .undo]).text = ['a', '\n', 'b'] ∧
      (ofText ['a', '\n', 'b']).buffer.tags = [.normal, .normal, .normal] ∧
      ((ofText ['a', '\n', 'b']).run [.edit ⟨0, 0, ['"']⟩, .set "comments", .set "nocomments",
        .undo]).buffer.tags = [.normal, .quoted, .quoted] ∧
      ¬ (ofText ['a', '\n', 'b']).Unmixed ((ofText ['a', '\n', 'b']).run
        [.edit ⟨0, 0, ['"']⟩, .set "comments", .set "nocomments", .undo]) := by
  refine ⟨by decide, by decide, by decide, by decide⟩

end Editor
end MetaPostEditor
