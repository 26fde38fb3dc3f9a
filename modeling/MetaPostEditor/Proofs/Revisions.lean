import MetaPostEditor.Proofs.BufferCalls
import MetaPostEditor.Proofs.Operations
import Mathlib.Data.List.DropRight

/-!
# What the revision tells

A buffer counts its changes in the revision and notes them in the mark that it has been modified.
One edit may make several changes, some without effect, and tags are also made anew outside the
history.  All of it goes through `Buffer.splice`, and a single relation says what that can do to the
counter and the mark: either the buffer is the same as before, or the counter has risen and the mark
is set (`Buffer.Advances`).

From this it follows for all runs of an editor that the revision never falls, that equal revisions
mean equal cells, and that a text that is not marked is the one that was loaded or saved last.  The
revision also rises in exactly the edits that the history records (`Editor.after_cases`).  The main
result, `Editor.run_revisions`, puts this together.
-/

namespace MetaPostEditor

namespace Buffer

variable {b b' b'' : Buffer}

/-! ## One relation for all changes -/

/-- The second buffer is the first, or it has been changed, which was counted and noted. -/
def Advances (b b' : Buffer) : Prop :=
  b' = b ∨ b.revision < b'.revision ∧ b'.modified = true

namespace Advances

lemma refl (b : Buffer) : b.Advances b :=
  .inl rfl

lemma trans (h : b.Advances b') (h' : b'.Advances b'') : b.Advances b'' := by
  rcases h' with rfl | ⟨hlt', hmodified⟩
  · exact h
  · rcases h with rfl | ⟨hlt, -⟩
    · exact .inr ⟨hlt', hmodified⟩
    · exact .inr ⟨hlt.trans hlt', hmodified⟩

lemma revision_le (h : b.Advances b') : b.revision ≤ b'.revision := by
  rcases h with rfl | ⟨hlt, -⟩
  · exact Nat.le_refl _
  · exact hlt.le

lemma eq_of_revision_eq (h : b.Advances b') (heq : b'.revision = b.revision) : b' = b := by
  rcases h with rfl | ⟨hlt, -⟩
  · rfl
  · omega

/-- The mark is set by exactly the changes that are counted. -/
lemma modified_eq_false_iff (h : b.Advances b') (hclean : b.modified = false) :
    b'.modified = false ↔ b'.revision = b.revision := by
  rcases h with rfl | ⟨hlt, hmodified⟩
  · simp [hclean]
  · simp only [hmodified, Bool.true_eq_false, false_iff]
    omega

end Advances

lemma advances_splice (b : Buffer) (start stop : Nat) (cells : List Cell) :
    b.Advances (b.splice start stop cells).1 := by
  rw [splice_fst]
  split
  · exact .refl b
  · exact .inr ⟨Nat.lt_succ_self _, rfl⟩

lemma advances_of_mutate {m : Mutation} {c : Change} (h : b.mutate m = .ok (b', c)) :
    b.Advances b' := by
  rw [mutate_eq] at h
  split at h
  · cases h
  · have hb' : (b.splice m.start m.stop (List.zipWith Cell.mk m.text m.tags)).1 = b' :=
      congrArg Prod.fst (Except.ok.inj h)
    rw [← hb']
    exact b.advances_splice _ _ _

lemma Steps.advances {cs : List Change} (h : b.Steps cs b') : b.Advances b' := by
  induction h with
  | nil => exact .refl _
  | cons _ _ _ ih => exact (advances_splice _ _ _ _).trans ih

lemma advances_of_perform {c : Change} (h : b.perform c = .ok b') : b.Advances b' := by
  rw [perform] at h
  cases hrange : b.checkRange c.start (c.start + c.removed.length) with
  | error e =>
    rw [hrange] at h
    cases h
  | ok u =>
    rw [hrange] at h
    rw [← Except.ok.inj h]
    exact b.advances_splice _ _ _

/-- What is replayed counts as well, also if it is refused half way. -/
lemma advances_performAll (b : Buffer) (cs : List Change) : b.Advances (b.performAll cs).2 := by
  induction cs generalizing b with
  | nil => exact .refl b
  | cons c cs ih =>
    rw [performAll]
    cases hperform : b.perform c with
    | error e => exact .refl b
    | ok b' => exact (advances_of_perform hperform).trans (ih b')

end Buffer

namespace History

lemma advances_undo (h : History) (b : Buffer) : b.Advances (h.undo b).2.2 := by
  rw [undo]
  split
  · exact .refl b
  · next t ts hts =>
    have hall := b.advances_performAll (t.changes.reverse.map Change.inverse)
    split
    · next b' hb' => rwa [hb'] at hall
    · next e b' hb' => rwa [hb'] at hall

lemma advances_redo (h : History) (b : Buffer) : b.Advances (h.redo b).2.2 := by
  rw [redo]
  split
  · exact .refl b
  · next t ts hts =>
    have hall := b.advances_performAll t.changes
    split
    · next b' hb' => rwa [hb'] at hall
    · next e b' hb' => rwa [hb'] at hall

end History

/-- The operation leaves the text as one that has been saved. -/
def Operation.saves : Operation → Bool
  | load _ | markSaved => true
  | _ => false

/-- The operation takes up a new text. -/
def Operation.isLoad : Operation → Bool
  | load _ => true
  | _ => false

namespace Editor

variable {ed ed₀ : Editor}

/-! ## One operation -/

/-- An edit makes changes one after the other, and the history records those with an effect. -/
lemma after_cases (ed : Editor) (e : Edit) :
    ed.after e = ed ∨ ∃ cs caret, ed.buffer.Steps cs (ed.after e).buffer ∧
      (ed.after e).history =
        if effective cs = [] then { ed.history with pending := none }
        else ed.history.push ⟨effective cs, ed.caret, caret, ed.options.comments⟩ := by
  rcases Nat.lt_or_ge ed.buffer.length (e.position + e.deleted) with hout | hin
  · exact .inl (after_of_gt hout)
  · obtain ⟨d, head, -, hmakes, happly⟩ := ed.apply_eq e hin
    obtain ⟨cs, hcs, hsteps⟩ := hmakes.grows
    rw [List.nil_append] at hcs
    rw [hcs, History.commit_foldl_record] at happly
    rw [after, happly]
    exact .inr ⟨cs, head.length, hsteps, rfl⟩

lemma advances_after (ed : Editor) (e : Edit) : ed.buffer.Advances (ed.after e).buffer := by
  rcases ed.after_cases e with hsame | ⟨cs, caret, hsteps, -⟩
  · rw [hsame]
    exact .refl _
  · exact hsteps.advances

/-- Tags that are made anew count as a change if one of them differs. -/
lemma advances_restyleAll (ed : Editor) : ed.buffer.Advances ed.restyleAll.buffer := by
  rw [restyleAll]
  split
  · next b' c hrestyle => exact Buffer.advances_of_mutate (m := .restyle _ _ _) hrestyle
  · exact .refl _

lemma advances_set (ed : Editor) (args : String) : ed.buffer.Advances (ed.set args).2.buffer := by
  rw [set]
  generalize ed.options.set args = result
  obtain ⟨shown, o⟩ := result
  dsimp only
  split
  · split <;> exact advances_restyleAll _
  · split <;> exact .refl _

lemma advances_restore (ed : Editor) (r : Restored) : ed.buffer.Advances (ed.restore r).buffer := by
  rw [restore]
  split
  · exact advances_restyleAll ed
  · exact .refl _

lemma advances_travel (ed : Editor)
    {step : History → Buffer → Except EditError (Option Restored) × History × Buffer}
    (hstep : ed.buffer.Advances (step ed.history ed.buffer).2.2) :
    ed.buffer.Advances (ed.travel step).2.buffer := by
  rw [travel]
  generalize step ed.history ed.buffer = result at hstep ⊢
  obtain ⟨outcome, history, buffer⟩ := result
  rcases outcome with e | _ | r
  · exact hstep
  · exact hstep
  · exact hstep.trans (advances_restore ⟨buffer, ed.options, history, ed.caret⟩ r)

/-- Every operation but loading and saving keeps the buffer, or counts and notes that it does
not. -/
lemma advances_perform (ed : Editor) {op : Operation} (hop : op.saves = false) :
    ed.buffer.Advances (ed.perform op).buffer := by
  have hkeeps : ∀ text, _ :=
    perform_of_after (P := fun ed' => ed.buffer.Advances ed'.buffer)
      (fun ed' e hed' => hed'.trans (ed'.advances_after e)) (.refl ed.buffer)
  cases op with
  | edit e => exact ed.advances_after e
  | load text => cases hop
  | set args => exact ed.advances_set args
  | undo => exact ed.advances_travel (History.advances_undo _ _)
  | redo => exact ed.advances_travel (History.advances_redo _ _)
  | markSaved => cases hop
  | paste text => exact (hkeeps text).1
  | type text => exact (hkeeps text).2

lemma modified_of_saves {op : Operation} (hop : op.saves = true) :
    (ed.perform op).buffer.modified = false := by
  cases op with
  | load text => rfl
  | markSaved => rfl
  | edit _ | set _ | undo | redo | paste _ | type _ => cases hop

lemma Initial.modified (h : Initial ed) : ed.buffer.modified = false := by
  cases h with
  | empty options => rfl
  | ofText text => rfl

/-- Without loading, the revision does not fall, and equal revisions mean equal cells. -/
lemma perform_revision_le (ed : Editor) {op : Operation} (hop : op.isLoad = false) :
    ed.buffer.revision ≤ (ed.perform op).buffer.revision ∧
      ((ed.perform op).buffer.revision = ed.buffer.revision →
        (ed.perform op).buffer.cells = ed.buffer.cells) := by
  cases hsaves : op.saves with
  | false =>
    have hadvances := ed.advances_perform hsaves
    exact ⟨hadvances.revision_le, fun heq => by rw [hadvances.eq_of_revision_eq heq]⟩
  | true =>
    -- what saves and does not load is the operation that only takes the mark away
    cases op with
    | markSaved => exact ⟨Nat.le_refl _, fun _ => rfl⟩
    | load text => cases hop
    | edit _ | set _ | undo | redo | paste _ | type _ => cases hsaves

/-- An edit is recorded exactly if it is counted. -/
lemma history_after (ed : Editor) (e : Edit) :
    ((ed.after e).buffer.revision = ed.buffer.revision ∧
        (ed.after e).history.undoStack = ed.history.undoStack ∧
        (ed.after e).history.redoStack = ed.history.redoStack) ∨
      ∃ t : Transaction, t.changes ≠ [] ∧
        (ed.after e).buffer.revision = ed.buffer.revision + t.changes.length ∧
        Trail t.changes ed.buffer.cells (ed.after e).buffer.cells ∧
        (ed.after e).history = ed.history.push t := by
  rcases ed.after_cases e with hsame | ⟨cs, caret, hsteps, hhistory⟩
  · rw [hsame]
    exact .inl ⟨rfl, rfl, rfl⟩
  · by_cases hnone : effective cs = []
    · rw [hhistory, if_pos hnone, hsteps.eq_of_effective hnone]
      exact .inl ⟨rfl, rfl, rfl⟩
    · rw [hhistory, if_neg hnone]
      exact .inr ⟨_, hnone, hsteps.revision, hsteps.trail.effective, rfl⟩

/-! ## Runs -/

lemma run_append (ed : Editor) (ops ops' : List Operation) :
    ed.run (ops ++ ops') = (ed.run ops).run ops' :=
  List.foldl_append

lemma advances_run (ed : Editor) {ops : List Operation} (hops : ∀ op ∈ ops, op.saves = false) :
    ed.buffer.Advances (ed.run ops).buffer := by
  induction ops generalizing ed with
  | nil => exact .refl _
  | cons op ops ih =>
    exact (ed.advances_perform (hops op List.mem_cons_self)).trans
      (ih _ fun op' hop' => hops op' (List.mem_cons_of_mem _ hop'))

lemma run_revision_le (ed : Editor) {ops : List Operation} (hops : ∀ op ∈ ops, op.isLoad = false) :
    ed.buffer.revision ≤ (ed.run ops).buffer.revision ∧
      ((ed.run ops).buffer.revision = ed.buffer.revision →
        (ed.run ops).buffer.cells = ed.buffer.cells) := by
  induction ops generalizing ed with
  | nil => exact ⟨Nat.le_refl _, fun _ => rfl⟩
  | cons op ops ih =>
    obtain ⟨hle, hsame⟩ := ed.perform_revision_le (hops op List.mem_cons_self)
    obtain ⟨hle', hsame'⟩ :=
      ih (ed.perform op) fun op' hop' => hops op' (List.mem_cons_of_mem _ hop')
    refine ⟨hle.trans hle', fun heq => ?_⟩
    -- the revision cannot have risen and fallen again, so it is the same in between
    have hmid : (ed.perform op).buffer.revision = ed.buffer.revision :=
      Nat.le_antisymm (heq ▸ hle') hle
    exact (hsame' (heq.trans hmid.symm)).trans (hsame hmid)

lemma run_take_revision_le (ed : Editor) {ops : List Operation}
    (hops : ∀ op ∈ ops, op.isLoad = false) {i j : Nat} (hij : i ≤ j) :
    (ed.run (ops.take i)).buffer.revision ≤ (ed.run (ops.take j)).buffer.revision ∧
      ((ed.run (ops.take j)).buffer.revision = (ed.run (ops.take i)).buffer.revision →
        (ed.run (ops.take j)).buffer.cells = (ed.run (ops.take i)).buffer.cells) := by
  have hsplit := List.take_append_drop i (ops.take j)
  rw [List.take_take, Nat.min_eq_left hij] at hsplit
  rw [← hsplit, run_append]
  refine run_revision_le _ fun op hop => hops op ?_
  exact List.mem_of_mem_take (List.mem_of_mem_drop hop)

/-- The operations up to the last one that loads or saves. -/
def untilSaved (ops : List Operation) : List Operation :=
  ops.rdropWhile fun op => !op.saves

/-- Right after the creation, after loading and after saving the text is not marked. -/
lemma modified_untilSaved (hinit : Initial ed₀) (ops : List Operation) :
    (ed₀.run (untilSaved ops)).buffer.modified = false := by
  induction ops using List.reverseRecOn with
  | nil => exact hinit.modified
  | append_singleton ops op ih =>
    rw [untilSaved]
    cases hop : op.saves with
    | true =>
      rw [List.rdropWhile_concat_neg _ _ _ (by simp [hop]), run_append]
      exact modified_of_saves hop
    | false =>
      rw [List.rdropWhile_concat_pos _ _ _ (by simp [hop])]
      exact ih

lemma advances_untilSaved (ed : Editor) (ops : List Operation) :
    (ed.run (untilSaved ops)).buffer.Advances (ed.run ops).buffer := by
  have hsplit : untilSaved ops ++ ops.rtakeWhile (fun op => !op.saves) = ops :=
    List.rdropWhile_append_rtakeWhile
  have hrest : ∀ op ∈ ops.rtakeWhile fun op => !op.saves, op.saves = false := by
    intro op hop
    simpa using List.mem_rtakeWhile_imp hop
  have hadvances := (ed.run (untilSaved ops)).advances_run hrest
  rwa [← run_append, hsplit] at hadvances

/-- **What the revision tells.**  In a run without loading the revision never falls, and at any two
moments with the same revision text and tags are the same.  In any run, the mark that the text has
been modified is missing exactly if the revision is the one right after the text was last created,
loaded or saved, and then text and tags are those of that moment.  An edit that raises the revision
adds a transaction to the history, with one change for each count, and an edit that does not leaves
both stacks as they are. -/
theorem run_revisions (hinit : Initial ed₀) {ops : List Operation} (hrun : ed₀.run ops = ed) :
    ((∀ op ∈ ops, op.isLoad = false) → ∀ i j, i ≤ j →
      (ed₀.run (ops.take i)).buffer.revision ≤ (ed₀.run (ops.take j)).buffer.revision ∧
      ((ed₀.run (ops.take j)).buffer.revision = (ed₀.run (ops.take i)).buffer.revision →
        (ed₀.run (ops.take j)).text = (ed₀.run (ops.take i)).text ∧
        (ed₀.run (ops.take j)).buffer.tags = (ed₀.run (ops.take i)).buffer.tags)) ∧
    (ed.buffer.modified = false ↔
      ed.buffer.revision = (ed₀.run (untilSaved ops)).buffer.revision) ∧
    (ed.buffer.modified = false →
      ed.text = (ed₀.run (untilSaved ops)).text ∧
      ed.buffer.tags = (ed₀.run (untilSaved ops)).buffer.tags) ∧
    ∀ e : Edit,
      (ed.buffer.revision < (ed.after e).buffer.revision → 1 ≤ ed.options.undolevels →
        ∃ t : Transaction,
          (ed.after e).history.undoStack =
            t :: ed.history.undoStack.take (ed.options.undolevels.toNat - 1) ∧
          (ed.after e).history.redoStack = [] ∧
          (ed.after e).buffer.revision = ed.buffer.revision + t.changes.length ∧
          Trail t.changes ed.buffer.cells (ed.after e).buffer.cells) ∧
      (¬ ed.buffer.revision < (ed.after e).buffer.revision →
        (ed.after e).history.undoStack = ed.history.undoStack ∧
        (ed.after e).history.redoStack = ed.history.redoStack) ∧
      (ed.history.undoStack.length < ed.options.undolevels.toNat →
        ((ed.after e).history.undoStack.length = ed.history.undoStack.length + 1 ↔
          ed.buffer.revision < (ed.after e).buffer.revision)) := by
  subst hrun
  have hlimit : (ed₀.run ops).history.limit = (ed₀.run ops).options.undolevels.toNat :=
    Reachable.limited ⟨ed₀, ops, hinit, rfl⟩
  have hadvances := ed₀.advances_untilSaved ops
  have hmark := hadvances.modified_eq_false_iff (modified_untilSaved hinit ops)
  refine ⟨fun hops i j hij => ?_, hmark, fun hclean => ?_, fun e => ?_⟩
  · obtain ⟨hle, hsame⟩ := ed₀.run_take_revision_le hops hij
    refine ⟨hle, fun heq => ?_⟩
    rw [text, text, Buffer.text, Buffer.text, Buffer.tags, Buffer.tags, hsame heq]
    exact ⟨rfl, rfl⟩
  · have hsame := hadvances.eq_of_revision_eq (hmark.1 hclean)
    rw [text, text, hsame]
    exact ⟨rfl, rfl⟩
  · rcases (ed₀.run ops).history_after e with
      ⟨hrevision, hundo, hredo⟩ | ⟨t, hne, hrevision, htrail, hpush⟩
    · rw [hrevision, hundo, hredo]
      simp
    · have hpos := List.length_pos_iff.2 hne
      have hrise : (ed₀.run ops).buffer.revision < ((ed₀.run ops).after e).buffer.revision := by
        omega
      rw [hpush, History.push, hlimit]
      refine ⟨fun _ hlevels => ⟨t, ?_, rfl, hrevision, htrail⟩, fun hnot => absurd hrise hnot, ?_⟩
      · exact List.take_cons (UInt64.le_iff_toNat_le.1 hlevels)
      · intro hroom
        rw [List.take_of_length_le (Nat.succ_le_of_lt hroom), List.length_cons]
        simp [hrise]

/-- An edit is made, taken back and the text saved.  After that one edit is refused and one inserts
nothing, and a third one is recorded. -/
theorem run_revisions_saved :
    ((ofText ['a']).run [.edit ⟨1, 0, ['b']⟩, .undo, .markSaved, .edit ⟨7, 1, []⟩,
        .edit ⟨0, 0, []⟩]).buffer.modified = false ∧
      ((ofText ['a']).run [.edit ⟨1, 0, ['b']⟩, .undo, .markSaved, .edit ⟨7, 1, []⟩,
        .edit ⟨0, 0, []⟩]).text =
        ((ofText ['a']).run [.edit ⟨1, 0, ['b']⟩, .undo, .markSaved]).text ∧
      ∃ t : Transaction, (((ofText ['a']).run [.edit ⟨1, 0, ['b']⟩, .undo, .markSaved,
        .edit ⟨7, 1, []⟩, .edit ⟨0, 0, []⟩]).after ⟨0, 0, ['f']⟩).history.undoStack = [t] := by
  obtain ⟨-, -, hclean, hedit⟩ := run_revisions (.ofText ['a'])
    (show (ofText ['a']).run [.edit ⟨1, 0, ['b']⟩, .undo, .markSaved, .edit ⟨7, 1, []⟩,
      .edit ⟨0, 0, []⟩] = _ from rfl)
  have hmark : ((ofText ['a']).run [.edit ⟨1, 0, ['b']⟩, .undo, .markSaved, .edit ⟨7, 1, []⟩,
      .edit ⟨0, 0, []⟩]).buffer.modified = false := by decide
  obtain ⟨t, hundo, -⟩ := (hedit ⟨0, 0, ['f']⟩).1 (by decide) (by decide)
  exact ⟨hmark, (hclean hmark).1, t, hundo⟩

end Editor
end MetaPostEditor
