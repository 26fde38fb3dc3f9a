import MetaPostEditor.Proofs.Steadiness

/-!
# Edits that insert nothing

An edit that inserts nothing and removes nothing still scans the word at its place.  It leaves no
trace if the scan finds the tags as it would set them, and at every place it does so exactly if the
tags are steady.

Tags stay steady as long as two things are avoided:

* going back to a shallower indentation before text that does not go on as from the start of the
  line (`Editor.Smooth`), for that text is not scanned then;
* switching comments to and fro while the history holds transactions from before
  (`Editor.Careful`), for their tags come back among tags that were made in between.

The main result, `Editor.insert_nothing`, says all this, and `Editor.insert_nothing_outdented` shows
what happens where one of the two is not avoided.
-/

namespace MetaPostEditor

/-! ## Changes without effect -/

namespace Draft

variable {d d' : Draft}

/-- An insertion is one change. -/
lemma put_of_insert {comments : Bool} {position caret : Nat} {inserted : List Char}
    (h : d.insert comments position inserted = .ok (d', caret)) :
    ∃ start stop cells, start ≤ stop ∧ stop ≤ d.buffer.length ∧ d' = d.put start stop cells := by
  rw [insert] at h
  generalize widen d.buffer.text position inserted comments = w at h
  cases hreplace : d.replace w.start w.stop (d.scanAt comments w.start (w.splice inserted)) with
  | error err =>
    rw [hreplace] at h
    cases h
  | ok d₁ =>
    rw [hreplace] at h
    cases h
    obtain ⟨hstart, hstop, hput⟩ := put_of_replace hreplace
    exact ⟨_, _, _, hstart, hstop, hput⟩

/-- One change that leaves all cells as they are has no effect. -/
lemma put_of_cells_eq {start stop : Nat} {cells : List Cell} (hstart : start ≤ stop)
    (hstop : stop ≤ d.buffer.length) (h : (d.put start stop cells).buffer.cells = d.buffer.cells) :
    (d.put start stop cells).buffer = d.buffer ∧
      (d.buffer.splice start stop cells).2.isNoop = true := by
  obtain ⟨u, v, -, hx, hy⟩ := Buffer.leads_splice hstart hstop cells
  have hsame : u ++ (d.buffer.splice start stop cells).2.inserted ++ v =
      u ++ (d.buffer.splice start stop cells).2.removed ++ v := by
    rw [← hx, ← hy]
    exact h
  have hnoop : (d.buffer.splice start stop cells).2.isNoop = true := by
    simpa [Change.isNoop] using hsame.symm
  refine ⟨?_, hnoop⟩
  rw [put, Buffer.splice_fst, hnoop, if_pos rfl]

/-- An edit that inserts nothing is one scan. -/
lemma edit_insert_nil (d : Draft) (o : Options) (position : Nat) :
    d.edit o (.insert position []) = d.insert o.comments position [] := by
  have hsteps : d.edit o (.insert position []) =
      (d.insert o.comments position [] >>= fun r => pure (r.1, r.2)) := rfl
  rw [hsteps]
  cases d.insert o.comments position [] <;> rfl

end Draft

namespace Editor

variable {ed ed₀ : Editor}

/-! ## What an insertion of nothing does -/

/-- Wherever an edit could scan, it would find the tags as it would set them. -/
def Steady (ed : Editor) : Prop :=
  MetaPostEditor.Steady ed.options.comments [] ed.buffer.cells

/-- An insertion of nothing scans the word at its place.  If the scan leaves all tags as they are,
only the caret moves. -/
lemma insert_nil_spec {x₀ w y : List Cell} (h : ed.buffer.cells = x₀ ++ w ++ y)
    (hx : Closed (textOf x₀)) (hw : Solid (textOf w)) :
    ed.apply (.insert (x₀ ++ w).length []) =
        .ok ((x₀ ++ w).length, ed.after (.insert (x₀ ++ w).length [])) ∧
      (ed.after (.insert (x₀ ++ w).length [])).buffer.cells =
        x₀ ++ classify ed.options.comments (carryOf x₀)
            (textOf w ++ reach ed.options.comments (textOf y)) ++
          y.drop (reach ed.options.comments (textOf y)).length ∧
      ((ed.after (.insert (x₀ ++ w).length [])).buffer.cells = ed.buffer.cells →
        ed.after (.insert (x₀ ++ w).length []) =
          ⟨ed.buffer, ed.options, { ed.history with pending := none }, (x₀ ++ w).length⟩) := by
  obtain ⟨d', hd', -, hcells⟩ := Draft.insert_nil_spec (d := ⟨ed.buffer, []⟩) h hx hw
    ed.options.comments
  obtain ⟨start, stop, cells, hstart, hstop, hput⟩ := Draft.put_of_insert hd'
  rw [← Draft.edit_insert_nil] at hd'
  have hin : (Edit.insert (x₀ ++ w).length []).position +
      (Edit.insert (x₀ ++ w).length []).deleted ≤ ed.buffer.length := by
    rw [Buffer.length_eq, h]
    simp [Edit.insert]
  have happly := apply_of_edit hin hd'
  refine ⟨by rw [after, happly], by rw [after_of_edit hin hd', hcells], fun hsame => ?_⟩
  rw [after_of_edit hin hd', hput] at hsame
  obtain ⟨hbuffer, hnoop⟩ := Draft.put_of_cells_eq hstart hstop hsame
  have hchanges : d'.changes = [(ed.buffer.splice start stop cells).2] := by
    rw [hput]
    rfl
  have hnone : effective d'.changes = [] := by
    rw [hchanges, effective, List.filter_cons, hnoop]
    rfl
  rw [after, happly, History.commit_foldl_record, if_pos hnone, hput, hbuffer]

/-- The scan of a word leaves the tags as they are exactly if they go on as it does. -/
lemma cells_eq_iff_goesOn {comments : Bool} {x₀ w y : List Cell} (hw : Solid (textOf w)) :
    x₀ ++ classify comments (carryOf x₀) (textOf w ++ reach comments (textOf y)) ++
        y.drop (reach comments (textOf y)).length = x₀ ++ w ++ y ↔
      GoesOn comments (carryOf x₀) (w ++ y) := by
  rw [GoesOn, textOf_append, reach_append_of_solid hw, List.append_assoc, List.append_assoc,
    List.append_cancel_left_eq]
  constructor
  · intro hsame
    exact ⟨_, hsame⟩
  · rintro ⟨u, hu⟩
    have hlen : (classify comments (carryOf x₀)
        (textOf w ++ reach comments (textOf y))).length =
          w.length + (reach comments (textOf y)).length := by
      rw [length_classify, length_textOf_append]
    have hrest := congrArg (List.drop (w.length + (reach comments (textOf y)).length)) hu
    rw [List.drop_left' hlen, ← List.drop_drop, List.drop_left] at hrest
    rw [← hrest, hu]

/-- The place of an insertion, with the word before it. -/
lemma exists_word_at (ed : Editor) {position : Nat} (h : position ≤ ed.buffer.length) :
    ∃ x₀ w y, ed.buffer.cells = x₀ ++ w ++ y ∧ Closed (textOf x₀) ∧ Solid (textOf w) ∧
      (x₀ ++ w).length = position := by
  obtain ⟨x₀, w, hxw, hx, hw⟩ := exists_closed_solid (ed.buffer.cells.take position)
  refine ⟨x₀, w, ed.buffer.cells.drop position, ?_, hx, hw, ?_⟩
  · rw [← hxw, List.take_append_drop]
  · rw [← hxw, List.length_take_of_le h]

/-- An insertion of nothing is made and leaves the text as it is. -/
lemma insert_nil_text {position : Nat} (h : position ≤ ed.buffer.length) :
    ed.apply (.insert position []) = .ok (position, ed.after (.insert position [])) ∧
      (ed.after (.insert position [])).text = ed.text := by
  obtain ⟨x₀, w, y, hsplit, hx, hw, rfl⟩ := ed.exists_word_at h
  obtain ⟨happly, hcells, -⟩ := insert_nil_spec hsplit hx hw
  refine ⟨happly, ?_⟩
  rw [text, text, Buffer.text_eq, Buffer.text_eq, hcells, hsplit]
  simp [textOf_drop, reach_append_drop]

/-- Insertions of nothing leave all tags as they are, wherever they are made, exactly if the tags
are steady. -/
lemma insert_nil_iff (ed : Editor) :
    (∀ position ≤ ed.buffer.length,
        (ed.after (.insert position [])).buffer.cells = ed.buffer.cells) ↔ ed.Steady := by
  constructor
  · intro hall x z hsplit hclosed
    -- a scan from a place where no word is open is one for an insertion right there
    have hsplit' : ed.buffer.cells = x ++ [] ++ z := by
      rw [hsplit, List.append_nil]
    have hle : (x ++ []).length ≤ ed.buffer.length := by
      rw [Buffer.length_eq, hsplit']
      simp
    obtain ⟨-, hcells, -⟩ := insert_nil_spec hsplit' hclosed solid_nil
    rw [hall _ hle, hsplit'] at hcells
    exact (cells_eq_iff_goesOn (w := []) solid_nil).1 hcells.symm
  · intro hsteady position hle
    obtain ⟨x₀, w, y, hsplit, hx, hw, rfl⟩ := ed.exists_word_at hle
    obtain ⟨-, hcells, -⟩ := insert_nil_spec hsplit hx hw
    rw [hcells, hsplit, cells_eq_iff_goesOn hw]
    exact hsteady x₀ (w ++ y) (by rw [hsplit, List.append_assoc]) hx

/-! ## No transaction is left open -/

lemma pending_after (h : ed.history.pending = none) (e : Edit) :
    (ed.after e).history.pending = none := by
  have hedited := ed.edited_after e
  generalize ed.after e = ed' at hedited ⊢
  cases hedited with
  | refused => exact h
  | idle => rfl
  | effective => rfl

lemma pending_load (ed : Editor) (text : List Char) : (ed.load text).history.pending = none := by
  obtain ⟨b, hb, -⟩ := ed.load_spec text
  rw [hb]
  rfl

lemma pending_perform (h : ed.history.pending = none) (op : Operation) :
    (ed.perform op).history.pending = none := by
  have hkeeps : ∀ text, _ :=
    perform_of_after (P := fun ed => ed.history.pending = none)
      (fun _ e hed => pending_after hed e) h
  cases op with
  | edit e => exact pending_after h e
  | load text => exact pending_load ed text
  | set args =>
    obtain ⟨b, hb, -⟩ := ed.set_spec args
    rw [perform, hb, History.relimit]
    split
    · exact h
    · exact h
  | undo => rw [perform, undo, history_travel, (History.undo_frame _ _).2, h]
  | redo => rw [perform, redo, history_travel, (History.redo_frame _ _).2, h]
  | markSaved => exact h
  | paste text => exact (hkeeps text).1
  | type text => exact (hkeeps text).2

lemma Initial.pending (h : Initial ed) : ed.history.pending = none := by
  cases h with
  | empty options => rfl
  | ofText text => exact pending_load _ _

lemma Reachable.pending (h : ed.Reachable) : ed.history.pending = none :=
  h.invariant (P := fun ed => ed.history.pending = none) (fun _ hinit => hinit.pending)
    fun _ op _ hed => pending_perform hed op

/-! ## Edits that leave steady tags -/

/-- If the edit goes back to a shallower indentation, the text behind it goes on as from the start
of the line. -/
def Smooth (ed : Editor) (e : Edit) : Prop :=
  e.isDeletion = true →
    goesBack ed.options.outdent (ed.text.take e.position)
      ((ed.text.drop e.position).take e.deleted) = true →
    GoesOn ed.options.comments (ed.buffer.stateAt (Indentation.lineStart ed.text e.position))
      (ed.buffer.cells.drop (e.position + e.deleted))

instance (ed : Editor) (e : Edit) : Decidable (ed.Smooth e) :=
  inferInstanceAs (Decidable (_ → _ → _))

lemma smooth_insert (ed : Editor) (position : Nat) (text : List Char) :
    ed.Smooth (.insert position text) := by
  intro he
  cases he

/-- After an edit that lies in the text steady tags are steady again exactly if the edit is
smooth. -/
lemma steady_after_iff (hreach : ed.Reachable) (hsteady : ed.Steady) {e : Edit}
    (hin : e.position + e.deleted ≤ ed.buffer.length) : (ed.after e).Steady ↔ ed.Smooth e := by
  obtain ⟨hsplit, hpos, hdel⟩ := ed.cells_of_edit hin
  obtain ⟨d, caret, hd, hiff⟩ := Draft.edit_steady_iff (d := ⟨ed.buffer, []⟩) (o := ed.options)
    hsplit hpos hdel hsteady hreach.meaningful.cells
  have hstart : Indentation.lineStart (textOf (ed.buffer.cells.take e.position))
      (ed.buffer.cells.take e.position).length = Indentation.lineStart ed.text e.position := by
    have happend := Indentation.lineStart_append (textOf (ed.buffer.cells.take e.position))
      (textOf (ed.buffer.cells.drop e.position))
    rw [← textOf_append, List.take_append_drop, length_textOf] at happend
    rw [← happend, ← hpos]
    rfl
  rw [hstart, textOf_take, textOf_take, textOf_drop] at hiff
  rw [Steady, (ed.edited_after e).options, after_of_edit hin hd]
  exact hiff

/-- Each edit is smooth where it is made. -/
def SmoothAll : Editor → List Edit → Prop
  | _, [] => True
  | ed, e :: es => ed.Smooth e ∧ SmoothAll (ed.after e) es

/-- The operation leaves steady tags, now and when it is taken back.  Edits are smooth, and comments
are switched only if no transaction in the history was made while they were shown as after it. -/
def Careful (ed : Editor) : Operation → Prop
  | .edit e => ed.Smooth e
  | .set args => (ed.set args).2.options.comments = ed.options.comments ∨
      ∀ t ∈ (ed.set args).2.history.undoStack ++ (ed.set args).2.history.redoStack,
        t.comments ≠ (ed.set args).2.options.comments
  | .type text => ∃ es, ed.SmoothAll es ∧ es.foldl after ed = (ed.typeText text).2
  | _ => True

end Editor

/-! ## Careful runs -/

/-- The cells that a transaction which led to `x` leads to if comments are shown as given: tags that
were made otherwise are made anew. -/
def Transaction.shown (comments : Bool) (t : Transaction) (x : List Cell) : List Cell :=
  if t.comments = comments then x else classify comments .normal (textOf x)

lemma Transaction.textOf_shown (comments : Bool) (t : Transaction) (x : List Cell) :
    textOf (t.shown comments x) = textOf x := by
  rw [shown]
  split
  · rfl
  · exact textOf_classify comments .normal (textOf x)

/-- The transaction leads from steady tags to steady tags. -/
structure Transaction.Sound (comments : Bool) (t : Transaction) (e : Entry (List Cell)) : Prop where
  before : Steady comments [] e.before
  after : Steady comments [] e.after
  trail : ∃ x y, Trail t.changes x y ∧ e.before = t.shown comments x ∧ e.after = t.shown comments y

lemma steady_scan (comments : Bool) (text : List Char) :
    Steady comments [] (classify comments .normal text) :=
  steady_classify (Scanner.State.possible_normal comments) rfl text

namespace Editor

variable {ed ed₀ : Editor}

/-- The tags are steady, and those in the history come back so. -/
structure Settled (ed : Editor) : Prop where
  steady : ed.Steady
  history : ∃ z : Zipper (List Cell), z.now = ed.buffer.cells ∧
    z.Mirrors True (Transaction.Sound ed.options.comments) id ed.history

lemma settled_of_empty {b : Buffer} {o : Options} {limit caret : Nat}
    (hb : MetaPostEditor.Steady o.comments [] b.cells) :
    Settled ⟨b, o, History.empty limit, caret⟩ :=
  ⟨hb, .start b.cells, rfl, Zipper.Mirrors.start (fun _ => ⟨rfl, rfl⟩) _⟩

lemma settled_load (ed : Editor) (text : List Char) : (ed.load text).Settled := by
  obtain ⟨b, hb, hcells⟩ := ed.load_spec text
  rw [hb]
  refine settled_of_empty ?_
  rw [hcells]
  exact steady_scan _ _

lemma Initial.settled (h : Initial ed) : ed.Settled := by
  cases h with
  | empty options => exact settled_of_empty (steady_scan options.comments [])
  | ofText text => exact settled_load _ _

namespace Settled

lemma after (h : ed.Settled) (hreach : ed.Reachable) {e : Edit} (he : ed.Smooth e) :
    (ed.after e).Settled := by
  have hedited := ed.edited_after e
  have hoptions := hedited.options
  have hsteady : (ed.after e).Steady := by
    rcases Nat.lt_or_ge ed.buffer.length (e.position + e.deleted) with hout | hin
    · rw [after_of_gt hout]
      exact h.steady
    · exact (steady_after_iff hreach h.steady hin).2 he
  obtain ⟨z, hnow, hmirrors⟩ := h.history
  refine ⟨hsteady, z.note ed (ed.after e) z.now (ed.after e).buffer.cells,
    z.now_note hedited fun hsame => ?_, ?_⟩
  · rw [hnow, hsame]
  · rw [Steady, hoptions] at hsteady
    rw [hoptions]
    refine hmirrors.note hreach.limited hedited rfl fun cs htrail => ?_
    rw [hnow]
    refine ⟨h.steady, hsteady, _, _, htrail, ?_, ?_⟩
    · rw [Transaction.shown, if_pos rfl]
    · rw [Transaction.shown, if_pos rfl]

/-- Where comments are shown otherwise from now on, all states of the history are seen anew. -/
lemma set (h : ed.Settled) {args : String} (hargs : ed.Careful (.set args)) :
    (ed.set args).2.Settled := by
  obtain ⟨z, hnow, hmirrors⟩ := h.history
  obtain ⟨b, hb, -, hsame, hnew⟩ := ed.set_spec args
  rw [Careful, hb] at hargs
  rw [hb]
  have hmirrors' := hmirrors.relimit ed.options.undolevels (ed.options.set args).2.undolevels
  by_cases hmode : (ed.options.set args).2.comments = ed.options.comments
  · obtain rfl := hsame hmode
    rw [← hmode] at hmirrors'
    refine ⟨?_, _, ?_, hmirrors'⟩
    · rw [Steady, hmode]
      exact h.steady
    · rw [Zipper.now_relimit, hnow]
  · have hforeign := List.forall_mem_append.1 (hargs.resolve_left hmode)
    have hcells := hnew hmode
    -- none of the transactions was made in the new mode
    have hsound : ∀ t : Transaction, t.comments ≠ (ed.options.set args).2.comments → ∀ e,
        t.Sound ed.options.comments e →
          t.Sound (ed.options.set args).2.comments
            (e.map fun x => classify (ed.options.set args).2.comments .normal (textOf x)) := by
      rintro t ht e ⟨-, -, x, y, htrail, hbefore, hafter⟩
      refine ⟨steady_scan _ _, steady_scan _ _, x, y, htrail, ?_, ?_⟩
      · rw [Entry.map, hbefore, Transaction.textOf_shown, Transaction.shown, if_neg ht]
      · rw [Entry.map, hafter, Transaction.textOf_shown, Transaction.shown, if_neg ht]
    refine ⟨?_, _, ?_, hmirrors'.map (fun t ht => hsound t (hforeign.1 t ht))
      fun t ht => hsound t (hforeign.2 t ht)⟩
    · rw [Steady, hcells]
      exact steady_scan _ _
    · rw [Zipper.map, Zipper.now_relimit, hnow, hcells]
      rfl

/-- Steady tags come back, as they were or made anew. -/
lemma replayed {t : Transaction} {r : Restored} {hist : History} {x y : List Cell}
    {outcome : Except EditError (Option Nat) × Editor} {z : Zipper (List Cell)}
    (hreplayed : ed.Replayed r hist x y outcome) (hr : r.comments = t.comments)
    (hx : ed.buffer.cells = t.shown ed.options.comments x)
    (hy : MetaPostEditor.Steady ed.options.comments [] (t.shown ed.options.comments y))
    (hnow : z.now = t.shown ed.options.comments y)
    (hmirrors : z.Mirrors True (Transaction.Sound ed.options.comments) id hist) :
    outcome.2.Settled := by
  obtain ⟨b, rfl, -, hsame, hnew⟩ := hreplayed
  have hcells : b.cells = t.shown ed.options.comments y := by
    rw [hr] at hsame hnew
    rw [Transaction.shown] at hx ⊢
    split at hx
    · next hmode =>
      rw [if_pos hmode]
      exact hsame hmode hx
    · next hmode =>
      rw [if_neg hmode]
      exact hnew hmode
  refine ⟨?_, z, hnow.trans hcells.symm, hmirrors⟩
  rw [Steady, hcells]
  exact hy

lemma undo (h : ed.Settled) : ed.undo.2.Settled := by
  obtain ⟨z, hnow, hmirrors⟩ := h.history
  rcases hmirrors.undo (hmirrors.past.own trivial) with
    ⟨hnone, -⟩ | ⟨t, ts, e, es, hts, hes, ⟨hsteady, -, x, y, htrail, hx, hy⟩, hk, hmirrors'⟩
  · rw [undo_of_nil hnone]
    exact h
  · have hcells : ed.buffer.cells = t.shown ed.options.comments y :=
      hnow.symm.trans (hk.symm.trans hy)
    have hreplayed := undo_of_cons hts htrail
      (by rw [text, Buffer.text_eq, hcells, Transaction.textOf_shown])
    refine replayed hreplayed rfl hcells (hx ▸ hsteady) ?_ hmirrors'
    rw [Zipper.back_of_cons hes]
    exact hx

lemma redo (h : ed.Settled) : ed.redo.2.Settled := by
  obtain ⟨z, hnow, hmirrors⟩ := h.history
  rcases hmirrors.redo (hmirrors.future.own trivial) with
    ⟨hnone, -⟩ | ⟨t, ts, e, es, hts, hes, ⟨-, hsteady, x, y, htrail, hx, hy⟩, hk, hmirrors'⟩
  · rw [redo_of_nil hnone]
    exact h
  · have hcells : ed.buffer.cells = t.shown ed.options.comments x :=
      hnow.symm.trans (hk.symm.trans hx)
    have hreplayed := redo_of_cons hts htrail
      (by rw [text, Buffer.text_eq, hcells, Transaction.textOf_shown])
    refine replayed hreplayed rfl hcells (hy ▸ hsteady) ?_ hmirrors'
    rw [Zipper.forth_of_cons hes]
    exact hy

lemma foldl_after {es : List Edit} (h : ed.Settled) (hreach : ed.Reachable)
    (hes : ed.SmoothAll es) : (es.foldl Editor.after ed).Settled := by
  induction es generalizing ed with
  | nil => exact h
  | cons e es ih => exact ih (h.after hreach hes.1) (hreach.perform (.edit e)) hes.2

lemma perform (h : ed.Settled) (hreach : ed.Reachable) {op : Operation} (hop : ed.Careful op) :
    (ed.perform op).Settled := by
  cases op with
  | edit e => exact h.after hreach hop
  | load text => exact settled_load ed text
  | set args => exact h.set hop
  | undo => exact h.undo
  | redo => exact h.redo
  | markSaved => exact ⟨h.steady, h.history⟩
  | paste text =>
    rw [perform_paste]
    exact h.after hreach (ed.smooth_insert _ _)
  | type text =>
    obtain ⟨es, hsmooth, hes⟩ := hop
    rw [Editor.perform, ← hes]
    exact h.foldl_after hreach hsmooth

end Settled

/-- Careful operations leave steady tags. -/
lemma steady_run (hinit : Initial ed₀) {ops : List Operation} (hops : Along Careful ed₀ ops) :
    (ed₀.run ops).Steady := by
  have hstart : ed₀.Reachable ∧ ed₀.Settled := ⟨⟨ed₀, [], hinit, rfl⟩, hinit.settled⟩
  have hboth : (ed₀.run ops).Reachable ∧ (ed₀.run ops).Settled :=
    run_invariant (P := fun ed => ed.Reachable ∧ ed.Settled)
      (fun ed op hed hop => ⟨hed.1.perform op, hed.2.perform hed.1 hop⟩) hstart hops
  exact hboth.2.steady

/-- **Insertions of nothing.**  An insertion of nothing at a place in the text returns the place and
leaves the text as it is.  It leaves the tags, the revision, the mark that the text was changed and
the history as they are, wherever it is made, if and only if the tags are steady.  Steady tags stay
so after an edit if and only if the edit is smooth, and they stay so in all careful runs. -/
theorem insert_nothing (hreach : ed.Reachable) :
    (∀ position ≤ ed.buffer.length,
      ed.apply (.insert position []) = .ok (position, ed.after (.insert position [])) ∧
        (ed.after (.insert position [])).text = ed.text) ∧
    ((∀ position ≤ ed.buffer.length,
        ed.apply (.insert position []) = .ok (position, { ed with caret := position })) ↔
      ed.Steady) ∧
    (ed.Steady → ∀ e : Edit, e.position + e.deleted ≤ ed.buffer.length →
      ((ed.after e).Steady ↔ ed.Smooth e)) ∧
    (∀ ed₀ ops, Initial ed₀ → Along Careful ed₀ ops → ed₀.run ops = ed →
      ∀ position ≤ ed.buffer.length,
        ed.apply (.insert position []) = .ok (position, { ed with caret := position })) := by
  have hnoop : ed.Steady → ∀ position ≤ ed.buffer.length,
      ed.apply (.insert position []) = .ok (position, { ed with caret := position }) := by
    intro hsteady position hle
    have hcells := ed.insert_nil_iff.2 hsteady position hle
    obtain ⟨x₀, w, y, hsplit, hx, hw, rfl⟩ := ed.exists_word_at hle
    obtain ⟨happly, -, hidle⟩ := insert_nil_spec hsplit hx hw
    rw [happly, hidle hcells, ← hreach.pending]
  refine ⟨fun position hle => insert_nil_text hle, ⟨fun hall => ?_, hnoop⟩, ?_, ?_⟩
  · refine ed.insert_nil_iff.1 fun position hle => ?_
    rw [after, hall position hle]
  · intro hsteady e hin
    exact steady_after_iff hreach hsteady hin
  · rintro ed₀ ops hinit hops rfl
    exact hnoop (steady_run hinit hops)

/-- A quote is set while comments are shown, and does not reach the second line.  There an
indentation is made shallower and put back.  The tags are not those of a scan of the whole text, and
insertions of nothing leave them alone. -/
theorem insert_nothing_old_tags :
    ((ofText ['i', 'f', '\n', ' ', ' ', 'f', 'i']).run
        [.set "comments", .edit ⟨0, 0, ['"']⟩, .edit ⟨5, 1, []⟩, .undo]).Reachable ∧
      Along Careful (ofText ['i', 'f', '\n', ' ', ' ', 'f', 'i'])
        [.set "comments", .edit ⟨0, 0, ['"']⟩, .edit ⟨5, 1, []⟩, .undo] ∧
      ¬ ((ofText ['i', 'f', '\n', ' ', ' ', 'f', 'i']).run
        [.set "comments", .edit ⟨0, 0, ['"']⟩, .edit ⟨5, 1, []⟩, .undo]).Fresh ∧
      ∀ position ≤ 8, ((ofText ['i', 'f', '\n', ' ', ' ', 'f', 'i']).run
          [.set "comments", .edit ⟨0, 0, ['"']⟩, .edit ⟨5, 1, []⟩, .undo]).apply
            (.insert position []) =
        .ok (position, { (ofText ['i', 'f', '\n', ' ', ' ', 'f', 'i']).run
          [.set "comments", .edit ⟨0, 0, ['"']⟩, .edit ⟨5, 1, []⟩, .undo] with
            caret := position }) := by
  have hreach : ((ofText ['i', 'f', '\n', ' ', ' ', 'f', 'i']).run
      [.set "comments", .edit ⟨0, 0, ['"']⟩, .edit ⟨5, 1, []⟩, .undo]).Reachable :=
    ⟨_, _, .ofText _, rfl⟩
  have hops : Along Careful (ofText ['i', 'f', '\n', ' ', ' ', 'f', 'i'])
      [.set "comments", .edit ⟨0, 0, ['"']⟩, .edit ⟨5, 1, []⟩, .undo] := by
    refine ⟨.inr ?_, smooth_insert _ _ _, ?_, trivial, trivial⟩
    · intro t ht
      exact absurd ht List.not_mem_nil
    · show Smooth _ _
      decide
  have hlength : ((ofText ['i', 'f', '\n', ' ', ' ', 'f', 'i']).run
      [.set "comments", .edit ⟨0, 0, ['"']⟩, .edit ⟨5, 1, []⟩, .undo]).buffer.length = 8 := by
    decide +kernel
  refine ⟨hreach, hops, by decide +kernel, fun position hle => ?_⟩
  exact (insert_nothing hreach).2.2.2 _ _ (.ofText _) hops rfl position (hlength ▸ hle)

/-- A quote and a newline are set before two spaces and a letter, and the indentation that they make
is removed.  The letter is not scanned then, and an insertion of nothing before it makes it part of
the string.  The same happens to a letter at the end of a line after comments have been switched on
and off and an edit from before has been taken back. -/
theorem insert_nothing_outdented :
    ((ofText ['a', ' ', ' ', 'b']).run
        [.edit ⟨1, 0, ['"', '\n']⟩, .edit ⟨4, 1, []⟩]).buffer.tags =
      [.normal, .normal, .quoted, .normal] ∧
    ((ofText ['a', ' ', ' ', 'b']).run
        [.edit ⟨1, 0, ['"', '\n']⟩, .edit ⟨4, 1, []⟩, .edit (.insert 3 [])]).buffer.tags =
      [.normal, .normal, .quoted, .quoted] ∧
    ((ofText ['a', '\n', 'b', ' ', 'c']).run
        [.edit ⟨0, 0, ['"']⟩, .edit ⟨6, 0, ['d']⟩, .set "comments", .set "nocomments",
          .undo]).buffer.tags =
      [.normal, .quoted, .quoted, .quoted, .quoted, .normal] ∧
    ((ofText ['a', '\n', 'b', ' ', 'c']).run
        [.edit ⟨0, 0, ['"']⟩, .edit ⟨6, 0, ['d']⟩, .set "comments", .set "nocomments", .undo,
          .edit (.insert 6 [])]).buffer.tags =
      [.normal, .quoted, .quoted, .quoted, .quoted, .quoted] := by
  refine ⟨by decide +kernel, by decide +kernel, by decide +kernel, by decide +kernel⟩

end Editor
end MetaPostEditor
