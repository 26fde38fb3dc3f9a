import MetaPostEditor.Typing
import MetaPostEditor.Proofs.Freshness
import MetaPostEditor.Proofs.Replay

/-!
# What operations do to an editor

For each operation one lemma says all that it can do to the text, the tags, the history and the
caret, and later files open no definition of the editor:

* an edit is refused, moves the caret, or adds one transaction to the history, whose changes are a
  trail from the cells before it to the cells after it (`Editor.Edited`);
* an undo or a redo walks the trail of a transaction, and tags the text anew if the transaction was
  made while comments were shown otherwise (`Editor.undo_of_cons`, `Editor.redo_of_cons`);
* setting options and loading a text (`Editor.set_spec`, `Editor.load_spec`);
* pasting is one edit and typing a sequence of them (`Editor.perform_paste`,
  `Editor.exists_typeText`).
-/

namespace MetaPostEditor

/-! ## Transactions -/

namespace History

/-- The history with one more transaction, which has been committed. -/
def push (h : History) (t : Transaction) : History :=
  { h with undoStack := (t :: h.undoStack).take h.limit, redoStack := [], pending := none }

/-- The history after the number of undos has been set. -/
def relimit (h : History) (old new : UInt64) : History :=
  if new ≠ old then h.setLimit new.toNat else h

lemma undoStack_relimit (h : History) (old new : UInt64) :
    (h.relimit old new).undoStack =
      if new = old then h.undoStack else h.undoStack.take new.toNat := by
  by_cases hsame : new = old <;> simp [relimit, setLimit, hsame]

lemma limit_relimit (h : History) (old new : UInt64) :
    (h.relimit old new).limit = if new = old then h.limit else new.toNat := by
  by_cases hsame : new = old <;> simp [relimit, setLimit, hsame]

lemma redoStack_relimit (h : History) (old new : UInt64) :
    (h.relimit old new).redoStack = h.redoStack := by
  rw [relimit]
  split <;> rfl

lemma record_of_isNoop (h : History) {c : Change} (hc : c.isNoop = true) : h.record c = h := by
  rw [record, hc, Bool.or_true, if_pos rfl]

lemma record_of_not_isNoop (h : History) {c : Change} (hc : c.isNoop = false) :
    h.record c =
      { h with pending := h.pending.map fun t => { t with changes := t.changes ++ [c] } } := by
  have hempty : c.isEmpty = false := by
    cases hempty : c.isEmpty with
    | false => rfl
    | true =>
      simp only [Change.isEmpty, Bool.and_eq_true, List.isEmpty_iff] at hempty
      simp [Change.isNoop, hempty] at hc
  rw [record, hc, hempty]
  rfl

/-- A transaction takes up the changes that have an effect. -/
lemma foldl_record (h : History) (t : Transaction) (cs : List Change) :
    cs.foldl record { h with pending := some t } =
      { h with pending := some { t with changes := t.changes ++ effective cs } } := by
  induction cs generalizing t with
  | nil => simp [effective]
  | cons c cs ih =>
    rw [List.foldl_cons, effective, List.filter_cons]
    cases hc : c.isNoop with
    | true =>
      rw [record_of_isNoop _ hc, ih]
      rfl
    | false =>
      rw [record_of_not_isNoop _ hc, Option.map_some, ih, List.append_assoc]
      rfl

lemma commit_foldl_record (h : History) (cs : List Change) (caret caret' : Nat) (comments : Bool) :
    (cs.foldl record (h.begin caret comments)).commit caret' =
      if effective cs = [] then { h with pending := none }
      else h.push ⟨effective cs, caret, caret', comments⟩ := by
  rw [begin, foldl_record, List.nil_append, commit]
  cases effective cs <;> rfl

/-- An undo or a redo moves transactions, and nothing else in the history changes. -/
lemma undo_frame (h : History) (b : Buffer) :
    (h.undo b).2.1.limit = h.limit ∧ (h.undo b).2.1.pending = h.pending := by
  rw [undo]
  split
  · exact ⟨rfl, rfl⟩
  · split <;> exact ⟨rfl, rfl⟩

lemma redo_frame (h : History) (b : Buffer) :
    (h.redo b).2.1.limit = h.limit ∧ (h.redo b).2.1.pending = h.pending := by
  rw [redo]
  split
  · exact ⟨rfl, rfl⟩
  · split <;> exact ⟨rfl, rfl⟩

lemma undo_of_performAll {h : History} {t : Transaction} {ts : List Transaction} {b b' : Buffer}
    (hstack : h.undoStack = t :: ts)
    (hb : b.performAll (t.changes.reverse.map Change.inverse) = (.ok (), b')) :
    h.undo b = (.ok (some ⟨t.caretBefore, t.comments⟩),
      { h with undoStack := ts, redoStack := t :: h.redoStack }, b') := by
  rw [undo, hstack]
  simp only [hb]

lemma redo_of_performAll {h : History} {t : Transaction} {ts : List Transaction} {b b' : Buffer}
    (hstack : h.redoStack = t :: ts) (hb : b.performAll t.changes = (.ok (), b')) :
    h.redo b = (.ok (some ⟨t.caretAfter, t.comments⟩),
      { h with undoStack := t :: h.undoStack, redoStack := ts }, b') := by
  rw [redo, hstack]
  simp only [hb]

end History

namespace Editor

variable {ed : Editor}

/-! ## Edits -/

/-- The editor after an edit.  An edit that is refused changes nothing. -/
def after (ed : Editor) (e : Edit) : Editor :=
  match ed.apply e with
  | .ok (_, ed') => ed'
  | .error _ => ed

/-- All that an edit can do. -/
inductive Edited (ed : Editor) : Editor → Prop
  | refused : Edited ed ed
  | idle {caret : Nat} (hcaret : caret ≤ ed.buffer.length) :
      Edited ed ⟨ed.buffer, ed.options, { ed.history with pending := none }, caret⟩
  | effective {b : Buffer} {cs : List Change} {caret : Nat} (hcaret : caret ≤ b.length)
      (htrail : Trail cs ed.buffer.cells b.cells) (hcount : ed.buffer.revision < b.revision) :
      Edited ed
        ⟨b, ed.options, ed.history.push ⟨cs, ed.caret, caret, ed.options.comments⟩, caret⟩

lemma after_of_gt {e : Edit} (h : e.position + e.deleted > ed.buffer.length) :
    ed.after e = ed := by
  rw [after, apply, if_pos h]
  rfl

lemma after_of_edit {e : Edit} (hin : e.position + e.deleted ≤ ed.buffer.length) {d : Draft}
    {caret : Nat} (hd : (Draft.mk ed.buffer []).edit ed.options e = .ok (d, caret)) :
    (ed.after e).buffer = d.buffer := by
  rw [after, apply_of_edit hin hd]

lemma edited_after (ed : Editor) (e : Edit) : ed.Edited (ed.after e) := by
  rcases Nat.lt_or_ge ed.buffer.length (e.position + e.deleted) with hout | hin
  · rw [after_of_gt hout]
    exact .refused
  · obtain ⟨d, head, -, hmakes, happly⟩ := ed.apply_eq e hin
    obtain ⟨cs, hcs, hsteps⟩ := hmakes.grows
    have hcaret := hmakes.length_le
    rw [List.nil_append] at hcs
    rw [hcs, History.commit_foldl_record] at happly
    rw [after, happly]
    -- a transaction without changes is dropped, and then the buffer is the old one
    by_cases hnone : MetaPostEditor.effective cs = []
    · rw [hsteps.eq_of_effective hnone] at hcaret ⊢
      rw [if_pos hnone]
      exact .idle hcaret
    · rw [if_neg hnone]
      refine .effective hcaret hsteps.trail.effective ?_
      have hpos := List.length_pos_iff.2 hnone
      rw [hsteps.revision]
      exact Nat.lt_add_of_pos_right hpos

lemma Edited.options {ed' : Editor} (h : ed.Edited ed') : ed'.options = ed.options := by
  cases h <;> rfl

/-! ## Tags made anew -/

lemma restyleAll_spec (ed : Editor) :
    ∃ b, ed.restyleAll = { ed with buffer := b } ∧
      b.cells = classify ed.options.comments .normal ed.text := by
  have hcells : ed.buffer.cells = [] ++ ed.buffer.cells ++ [] := by simp
  have hall : ed.buffer.cellsIn 0 ed.buffer.length = ed.buffer.cells := by
    simp [Buffer.cellsIn, Buffer.length]
  refine ⟨(ed.buffer.splice 0 ed.buffer.length
    (classify ed.options.comments .normal ed.text)).1, ?_, ?_⟩
  · have hrestyle : ed.buffer.restyle 0 ed.buffer.length
        (tokenize ed.options.comments .normal ed.buffer.text) =
        .ok (ed.buffer.splice 0 ed.buffer.length
          (classify ed.options.comments .normal ed.text)) := by
      have htext : (tokenize ed.options.comments .normal ed.buffer.text).flatMap (·.text) =
          (ed.buffer.cellsIn 0 ed.buffer.length).map (·.char) := by
        rw [flatMap_text_tokenize, hall]
        rfl
      rw [Buffer.restyle, Buffer.checkRange_eq_ok (Nat.zero_le _) (Nat.le_refl _)]
      simp only [bind, Except.bind, htext, ne_eq, not_true_eq_false, if_false]
      exact Buffer.replace_tokenize (Nat.zero_le _) (Nat.le_refl _) _ _ _
    rw [restyleAll, hrestyle]
  · rw [Buffer.cells_splice _ _ (Nat.zero_le _)]
    simp [Buffer.length]

/-- Tags that are made anew under a condition. -/
lemma restyleAll_if (ed : Editor) (p : Prop) [Decidable p] :
    ∃ b, (if p then ed.restyleAll else ed) = { ed with buffer := b } ∧ b.text = ed.text ∧
      (¬ p → b = ed.buffer) ∧
      (p → b.cells = classify ed.options.comments .normal ed.text) := by
  by_cases hp : p
  · obtain ⟨b, hb, hcells⟩ := ed.restyleAll_spec
    refine ⟨b, by rw [if_pos hp, hb], ?_, fun hnp => absurd hp hnp, fun _ => hcells⟩
    rw [Buffer.text_eq, hcells, textOf_classify]
  · exact ⟨ed.buffer, by rw [if_neg hp], rfl, fun _ => rfl, fun hp' => absurd hp' hp⟩

lemma load_spec (ed : Editor) (text : List Char) :
    ∃ b, ed.load text = ⟨b, ed.options, History.empty ed.options.undolevels.toNat, 0⟩ ∧
      b.cells = classify ed.options.comments .normal text := by
  obtain ⟨b, hb, hcells⟩ := { ed with buffer := Buffer.ofText text }.restyleAll_spec
  refine ⟨b.markSaved, by rw [load, hb], ?_⟩
  rw [Editor.text, Buffer.text_ofText] at hcells
  exact hcells

lemma set_spec (ed : Editor) (args : String) :
    ∃ b, (ed.set args).2 =
        ⟨b, (ed.options.set args).2,
          ed.history.relimit ed.options.undolevels (ed.options.set args).2.undolevels, ed.caret⟩ ∧
      b.text = ed.text ∧
      ((ed.options.set args).2.comments = ed.options.comments → b = ed.buffer) ∧
      ((ed.options.set args).2.comments ≠ ed.options.comments →
        b.cells = classify (ed.options.set args).2.comments .normal ed.text) := by
  generalize hset : ed.options.set args = result
  obtain ⟨shown, o⟩ := result
  obtain ⟨b, hb, htext, hsame, hnew⟩ := restyleAll_if
    ⟨ed.buffer, o, ed.history.relimit ed.options.undolevels o.undolevels, ed.caret⟩
    (o.comments ≠ ed.options.comments)
  refine ⟨b, ?_, htext, fun h => hsame (not_not_intro h), hnew⟩
  refine Eq.trans ?_ hb
  rw [set, hset, History.relimit]
  by_cases hlevels : o.undolevels = ed.options.undolevels <;> simp [hlevels]

/-! ## Undo and redo -/

lemma restore_spec (ed : Editor) (r : Restored) :
    ∃ b, ed.restore r = { ed with buffer := b, caret := min r.caret b.length } ∧
      b.text = ed.text ∧ (r.comments = ed.options.comments → b = ed.buffer) ∧
      (r.comments ≠ ed.options.comments →
        b.cells = classify ed.options.comments .normal ed.text) := by
  obtain ⟨b, hb, htext, hsame, hnew⟩ := ed.restyleAll_if (r.comments ≠ ed.options.comments)
  refine ⟨b, ?_, htext, fun h => hsame (not_not_intro h), hnew⟩
  rw [restore, hb]

/-- The outcome of a step in the history that leads from the text of `x` to the text of `y`.  The
tags are those of `y` if those of `x` were there before, but tags that were made while comments were
shown otherwise are made anew. -/
def Replayed (ed : Editor) (r : Restored) (h : History) (x y : List Cell)
    (outcome : Except EditError (Option Nat) × Editor) : Prop :=
  ∃ b, outcome =
      (.ok (some (min r.caret b.length)), ⟨b, ed.options, h, min r.caret b.length⟩) ∧
    b.text = textOf y ∧
    (r.comments = ed.options.comments → ed.buffer.cells = x → b.cells = y) ∧
    (r.comments ≠ ed.options.comments →
      b.cells = classify ed.options.comments .normal (textOf y))

/-- A step in the history, whatever comes of it, leaves the options alone. -/
lemma travel_frame (ed : Editor)
    (step : History → Buffer → Except EditError (Option Restored) × History × Buffer) :
    (ed.travel step).2.history = (step ed.history ed.buffer).2.1 ∧
      (ed.travel step).2.options = ed.options := by
  rw [travel]
  generalize step ed.history ed.buffer = result
  obtain ⟨outcome, history, buffer⟩ := result
  rcases outcome with e | _ | r
  · exact ⟨rfl, rfl⟩
  · exact ⟨rfl, rfl⟩
  · obtain ⟨b, hb, -⟩ := restore_spec ⟨buffer, ed.options, history, ed.caret⟩ r
    simp only [hb, and_self]

lemma history_travel (ed : Editor)
    (step : History → Buffer → Except EditError (Option Restored) × History × Buffer) :
    (ed.travel step).2.history = (step ed.history ed.buffer).2.1 :=
  (ed.travel_frame step).1

lemma options_travel (ed : Editor)
    (step : History → Buffer → Except EditError (Option Restored) × History × Buffer) :
    (ed.travel step).2.options = ed.options :=
  (ed.travel_frame step).2

/-- A step in the history that succeeds. -/
lemma travel_of_step
    {step : History → Buffer → Except EditError (Option Restored) × History × Buffer}
    {r : Restored} {h : History} {b₁ : Buffer}
    (hstep : step ed.history ed.buffer = (.ok (some r), h, b₁)) :
    ∃ b, ed.travel step =
        (.ok (some (min r.caret b.length)), ⟨b, ed.options, h, min r.caret b.length⟩) ∧
      b.text = b₁.text ∧ (r.comments = ed.options.comments → b = b₁) ∧
      (r.comments ≠ ed.options.comments →
        b.cells = classify ed.options.comments .normal b₁.text) := by
  obtain ⟨b, hb, htext, hsame, hnew⟩ := restore_spec ⟨b₁, ed.options, h, ed.caret⟩ r
  refine ⟨b, ?_, htext, hsame, hnew⟩
  rw [travel, hstep]
  simp only [hb]

lemma travel_of_trail
    {step : History → Buffer → Except EditError (Option Restored) × History × Buffer}
    {cs : List Change} {r : Restored} {h : History} {x y : List Cell}
    (hstep : ∀ b, ed.buffer.performAll cs = (.ok (), b) →
      step ed.history ed.buffer = (.ok (some r), h, b))
    (htrail : Trail cs x y) (htext : ed.text = textOf x) :
    ed.Replayed r h x y (ed.travel step) := by
  obtain ⟨b₁, hperform, htext₁, hcells⟩ := Buffer.performAll_of_trail htrail htext
  obtain ⟨b, hb, htext₂, hsame, hnew⟩ := travel_of_step (hstep b₁ hperform)
  rw [htext₁] at htext₂ hnew
  refine ⟨b, hb, htext₂, fun hmode hx => ?_, hnew⟩
  rw [hsame hmode]
  exact hcells hx

lemma undo_of_nil (h : ed.history.undoStack = []) : ed.undo = (.ok none, ed) := by
  rw [undo, travel, History.undo, h]

lemma redo_of_nil (h : ed.history.redoStack = []) : ed.redo = (.ok none, ed) := by
  rw [redo, travel, History.redo, h]

lemma undo_of_cons {t : Transaction} {ts : List Transaction} {x y : List Cell}
    (hstack : ed.history.undoStack = t :: ts) (htrail : Trail t.changes x y)
    (htext : ed.text = textOf y) :
    ed.Replayed ⟨t.caretBefore, t.comments⟩
      { ed.history with undoStack := ts, redoStack := t :: ed.history.redoStack } y x ed.undo := by
  exact travel_of_trail (fun b hb => History.undo_of_performAll hstack hb) htrail.reverse htext

lemma redo_of_cons {t : Transaction} {ts : List Transaction} {x y : List Cell}
    (hstack : ed.history.redoStack = t :: ts) (htrail : Trail t.changes x y)
    (htext : ed.text = textOf x) :
    ed.Replayed ⟨t.caretAfter, t.comments⟩
      { ed.history with undoStack := t :: ed.history.undoStack, redoStack := ts } x y ed.redo := by
  exact travel_of_trail (fun b hb => History.redo_of_performAll hstack hb) htrail htext

end Editor

/-! ## Typing -/

namespace Keyboard

variable {α β : Type}

/-- The editor that an action at the keyboard leaves, whether it fails or not. -/
def leaves (a : Keyboard α) (t : Typist) : Editor :=
  match a t with
  | .ok _ t' => t'.editor
  | .error _ t' => t'.editor

/-- All that the action does to the editor is a sequence of edits, each of one character. -/
def Types (a : Keyboard α) : Prop :=
  ∀ t, ∃ es : List Edit, (∀ e ∈ es, e.deleted + e.inserted.length = 1) ∧
    leaves a t = es.foldl Editor.after t.editor

lemma types_of_idle {a : Keyboard α} (h : ∀ t, leaves a t = t.editor) : Types a :=
  fun t => ⟨[], by simp, h t⟩

lemma types_bind {a : Keyboard α} {f : α → Keyboard β} (ha : Types a) (hf : ∀ x, Types (f x)) :
    Types (a >>= f) := by
  intro t
  obtain ⟨es, hes, hleaves⟩ := ha t
  cases hat : a t with
  | error err t' =>
    have hbind : (a >>= f) t = .error err t' := by
      change EStateM.bind a f t = _
      rw [EStateM.bind, hat]
    refine ⟨es, hes, ?_⟩
    rw [← hleaves, leaves, leaves, hbind, hat]
  | ok x t' =>
    have hbind : (a >>= f) t = f x t' := by
      change EStateM.bind a f t = _
      rw [EStateM.bind, hat]
    obtain ⟨es', hes', hleaves'⟩ := hf x t'
    have ht' : t'.editor = es.foldl Editor.after t.editor := by rw [← hleaves, leaves, hat]
    refine ⟨es ++ es', ?_, ?_⟩
    · intro e he
      rcases List.mem_append.1 he with he | he
      · exact hes e he
      · exact hes' e he
    · rw [List.foldl_append, ← ht', ← hleaves', leaves, leaves, hbind]

lemma types_pure (x : α) : Types (pure x) :=
  types_of_idle fun _ => rfl

lemma types_throw (e : TypingError) : Types (throw e : Keyboard α) :=
  types_of_idle fun _ => rfl

lemma types_get : Types (get : Keyboard Typist) :=
  types_of_idle fun _ => rfl

lemma types_count (f : KeyCount → KeyCount) : Types (count f) :=
  types_of_idle fun _ => rfl

lemma types_press {e : Edit} (he : e.deleted + e.inserted.length = 1) : Types (press e) := by
  intro t
  cases happly : t.editor.apply e with
  | error err =>
    refine ⟨[], by simp, ?_⟩
    rw [leaves, press, happly]
    rfl
  | ok result =>
    refine ⟨[e], by simpa using he, ?_⟩
    rw [leaves, press, happly, List.foldl_cons, Editor.after, happly]
    rfl

lemma types_char (c : Char) : Types (char c) :=
  types_bind types_get fun _ => types_bind (types_press rfl) fun _ => types_count _

lemma types_chars (cs : List Char) : Types (chars cs) := by
  induction cs with
  | nil => exact types_pure ()
  | cons c cs ih => exact types_bind (types_char c) fun _ => ih

lemma types_enter : Types enter :=
  types_bind types_get fun _ => types_bind (types_press rfl) fun _ => types_count _

lemma types_backspace : Types backspace := by
  refine types_bind types_get fun t => ?_
  dsimp only
  split
  · exact types_bind (types_throw _) fun _ => types_bind (types_press rfl) fun _ => types_count _
  · exact types_bind (types_press rfl) fun _ => types_count _

lemma types_matchIndent (target : List Char) (fuel : Nat) : Types (matchIndent target fuel) := by
  induction fuel with
  | zero =>
    rw [matchIndent]
    refine types_bind types_get fun t => ?_
    dsimp only
    split
    · exact types_chars _
    · exact types_throw _
  | succ fuel ih =>
    rw [matchIndent]
    refine types_bind types_get fun t => ?_
    dsimp only
    split
    · exact types_chars _
    · exact types_bind types_backspace fun _ => ih

lemma types_line (l : List Char) : Types (line l) :=
  types_bind types_get fun _ => types_bind (types_matchIndent _ _) fun _ => types_chars _

lemma types_newLines (ls : List (List Char)) : Types (newLines ls) := by
  induction ls with
  | nil => exact types_pure ()
  | cons l ls ih => exact types_bind types_enter fun _ => types_bind (types_line l) fun _ => ih

lemma types_text (t : List Char) : Types (text t) := by
  rw [text]
  split
  · exact types_pure ()
  · exact types_bind (types_line _) fun _ => types_newLines _

lemma types_textExactly (t : List Char) : Types (textExactly t) := by
  refine types_bind types_get fun _ => types_bind (types_text t) fun _ =>
    types_bind types_get fun _ => ?_
  dsimp only
  split
  · exact types_bind (types_throw _) fun _ => types_bind types_get fun _ => types_pure _
  · exact types_bind types_get fun _ => types_pure _

end Keyboard

namespace Editor

/-- Typing is a sequence of edits, each of one character. -/
lemma exists_typeText (ed : Editor) (text : List Char) :
    ∃ es : List Edit, (∀ e ∈ es, e.deleted + e.inserted.length = 1) ∧
      (ed.typeText text).2 = es.foldl after ed := by
  obtain ⟨es, hes, hleaves⟩ := Keyboard.types_textExactly text ⟨ed, ⟨0, 0, 0⟩⟩
  refine ⟨es, hes, ?_⟩
  rw [← hleaves, typeText, Keyboard.leaves]
  split <;> simp_all

end Editor

/-! ## Runs -/

/-- What can be done with an editor. -/
inductive Operation where
  | edit (e : Edit)
  | load (text : List Char)
  | set (args : String)
  | undo
  | redo
  | markSaved
  | paste (text : List Char)
  | type (text : List Char)

namespace Editor

variable {ed : Editor}

/-- The editor after an operation, whether the operation fails or not. -/
def perform (ed : Editor) : Operation → Editor
  | .edit e => ed.after e
  | .load text => ed.load text
  | .set args => (ed.set args).2
  | .undo => ed.undo.2
  | .redo => ed.redo.2
  | .markSaved => ed.markSaved
  | .paste text =>
    match ed.paste text with
    | .ok ed' => ed'
    | .error _ => ed
  | .type text => (ed.typeText text).2

/-- Pasting is an edit at the caret. -/
lemma perform_paste (ed : Editor) (text : List Char) :
    ed.perform (.paste text) = ed.after (.insert ed.caret text) := by
  rw [perform, paste, after]
  cases ed.apply (.insert ed.caret text) <;> rfl

/-- What every edit keeps is kept by pasting and by typing. -/
lemma perform_of_after {P : Editor → Prop} (hafter : ∀ ed e, P ed → P (ed.after e)) (h : P ed)
    (text : List Char) : P (ed.perform (.paste text)) ∧ P (ed.perform (.type text)) := by
  obtain ⟨es, -, hes⟩ := ed.exists_typeText text
  rw [perform_paste]
  refine ⟨hafter ed _ h, ?_⟩
  rw [perform, hes]
  exact List.foldlRecOn es after h fun ed hed e _ => hafter ed e hed

/-- The editor after operations. -/
def run (ed : Editor) (ops : List Operation) : Editor :=
  ops.foldl perform ed

/-- Each operation is allowed in the state in which it is made. -/
def Along (allowed : Editor → Operation → Prop) : Editor → List Operation → Prop
  | _, [] => True
  | ed, op :: ops => allowed ed op ∧ Along allowed (ed.perform op) ops

lemma Along.take {allowed : Editor → Operation → Prop} {ops : List Operation}
    (h : Along allowed ed ops) (n : Nat) : Along allowed ed (ops.take n) := by
  induction ops generalizing ed n with
  | nil => rwa [List.take_nil]
  | cons op ops ih =>
    cases n with
    | zero => trivial
    | succ n => exact ⟨h.1, ih h.2 n⟩

/-- What every allowed operation keeps holds after every run. -/
lemma run_invariant {P : Editor → Prop} {allowed : Editor → Operation → Prop}
    (hstep : ∀ ed op, P ed → allowed ed op → P (ed.perform op)) {ops : List Operation} (h : P ed)
    (hops : Along allowed ed ops) : P (ed.run ops) := by
  induction ops generalizing ed with
  | nil => exact h
  | cons op ops ih => exact ih (hstep ed op h hops.1) hops.2

/-- An editor with which nothing has been done. -/
inductive Initial : Editor → Prop
  | empty (options : Options) : Initial (empty options)
  | ofText (text : List Char) : Initial (ofText text)

/-- The editor comes about by operations. -/
def Reachable (ed : Editor) : Prop :=
  ∃ ed₀ ops, Initial ed₀ ∧ ed = ed₀.run ops

/-! ## The number of undos -/

/-- The history keeps as many transactions as the options say. -/
def Limited (ed : Editor) : Prop :=
  ed.history.limit = ed.options.undolevels.toNat

lemma Initial.limited (h : Initial ed) : ed.Limited := by
  cases h with
  | empty options => rfl
  | ofText text =>
    obtain ⟨b, hb, -⟩ := (Editor.empty Options.default).load_spec text
    rw [Editor.ofText, hb]
    rfl

lemma Limited.after (h : ed.Limited) (e : Edit) : (ed.after e).Limited := by
  have hedited := ed.edited_after e
  generalize ed.after e = ed' at hedited ⊢
  cases hedited with
  | refused => exact h
  | idle => exact h
  | effective => exact h

lemma Limited.travel (h : ed.Limited)
    {step : History → Buffer → Except EditError (Option Restored) × History × Buffer}
    (hstep : (step ed.history ed.buffer).2.1.limit = ed.history.limit) :
    (ed.travel step).2.Limited := by
  rw [Limited, history_travel, options_travel]
  exact hstep.trans h

lemma Limited.set (h : ed.Limited) (args : String) : (ed.set args).2.Limited := by
  obtain ⟨b, hb, -⟩ := ed.set_spec args
  rw [hb, Limited, History.relimit]
  split
  · rfl
  · next hsame => exact h.trans (by rw [not_not.1 hsame])

lemma Limited.perform (h : ed.Limited) (op : Operation) : (ed.perform op).Limited := by
  cases op with
  | edit e => exact h.after e
  | load text =>
    obtain ⟨b, hb, -⟩ := ed.load_spec text
    rw [Editor.perform, hb]
    rfl
  | set args => exact h.set args
  | undo => exact h.travel (History.undo_frame _ _).1
  | redo => exact h.travel (History.redo_frame _ _).1
  | markSaved => exact h
  | paste text => exact (perform_of_after (fun _ e hed => hed.after e) h text).1
  | type text => exact (perform_of_after (fun _ e hed => hed.after e) h text).2

lemma Reachable.perform (h : ed.Reachable) (op : Operation) : (ed.perform op).Reachable := by
  obtain ⟨ed₀, ops, hinit, rfl⟩ := h
  exact ⟨ed₀, ops ++ [op], hinit, by rw [run, run, List.foldl_concat]⟩

/-- What holds of initial editors and is kept by every operation holds of all editors that come
about by operations. -/
lemma Reachable.invariant {P : Editor → Prop} (h : ed.Reachable) (hinit : ∀ ed, Initial ed → P ed)
    (hperform : ∀ ed op, ed.Reachable → P ed → P (ed.perform op)) : P ed := by
  obtain ⟨ed₀, ops, hed₀, rfl⟩ := h
  have hstart : ed₀.Reachable ∧ P ed₀ := ⟨⟨ed₀, [], hed₀, rfl⟩, hinit ed₀ hed₀⟩
  have hboth : (ed₀.run ops).Reachable ∧ P (ed₀.run ops) :=
    List.foldlRecOn (motive := fun ed => ed.Reachable ∧ P ed) ops Editor.perform hstart
      fun ed hed op _ => ⟨hed.1.perform op, hperform ed op hed.1 hed.2⟩
  exact hboth.2

lemma Reachable.limited (h : ed.Reachable) : ed.Limited :=
  h.invariant (fun _ hinit => hinit.limited) fun _ op _ hed => hed.perform op

end Editor
end MetaPostEditor
