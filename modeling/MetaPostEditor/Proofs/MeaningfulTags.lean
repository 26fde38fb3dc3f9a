import MetaPostEditor.Proofs.Snapshots

/-!
# Every tag fits its character

The tags of an editor may be old, but none is out of place: no letter is tagged as a digit, no quote
as the text of a string, and nothing is tagged as a comment while comments are not shown
(`Cell.Meaningful`).  The main result, `Editor.reachable_meaningful`, says so of every state of an
editor.

A scan gives only such tags, for each state of the scanner admits certain characters only.  All that
an edit puts into the text comes from scans (`Draft.Scans`), and so do the cells that its
transaction holds.  They fit in the mode in which the transaction was made, and the mode is noted in
it.  When it is undone or redone, the tags are either back in that mode or made anew.
-/

namespace MetaPostEditor

/-- The tag can be given to the character, while comments are shown or not. -/
structure Cell.Meaningful (comments : Bool) (cell : Cell) : Prop where
  comment : cell.tag = .comment → comments = true ∧ cell.char ≠ '\n'
  quote : cell.char = '"' → cell.tag = .normal ∨ cell.tag = .comment
  digits : cell.tag = .digits → Unicode.isNumeric cell.char = true
  word : cell.tag = .keyword ∨ cell.tag = .datatype → Unicode.isAlphabetic cell.char = true
  percent : comments = true → cell.char = '%' → cell.tag = .comment ∨ cell.tag = .quoted

/-! ## Scans -/

namespace Scanner

/-- The character can lead to the state. -/
def State.Admits (comments : Bool) (c : Char) : State → Prop
  | digits => Unicode.isNumeric c = true
  | word => Unicode.isAlphabetic c = true
  | quoted => c ≠ '"'
  | openQuote | closeQuote => c = '"'
  | comment => comments = true ∧ c ≠ '\n'
  | normal | done => c ≠ '"' ∧ (comments = true → c ≠ '%')

lemma State.admits_step (comments : Bool) (s : State) (c : Char) :
    (s.step comments c).Admits comments c := by
  rw [State.step]
  split
  · -- in a string
    split
    · assumption
    · assumption
  · split
    · -- in a comment
      next hs =>
      split
      · next hc => simp [Admits, hc]
      · next hc => exact ⟨hs.2, hc⟩
    · split
      · assumption
      · split
        · assumption
        · split
          · assumption
          · next hquote =>
            split
            · next hpercent => exact ⟨hpercent.2, by simp [hpercent.1]⟩
            · next hpercent => exact ⟨hquote, fun hcomments hc => hpercent ⟨hc, hcomments⟩⟩

/-- Neither a quote nor a percent sign is a digit or a letter. -/
lemma State.Admits.ne {comments : Bool} {c d : Char} {s : State} (h : s.Admits comments c)
    (hs : s = .digits ∨ s = .word) (hd : d = '"' ∨ d = '%') : c ≠ d := by
  have hneither : Unicode.isNumeric d = false ∧ Unicode.isAlphabetic d = false := by
    rcases hd with rfl | rfl <;> decide +kernel
  rintro rfl
  rcases hs with rfl | rfl
  · exact absurd (hneither.1.symm.trans h) Bool.false_ne_true
  · exact absurd (hneither.2.symm.trans h) Bool.false_ne_true

lemma State.tag_word (text : List Char) :
    State.word.tag text = .keyword ∨ State.word.tag text = .datatype ∨
      State.word.tag text = .normal := by
  rw [State.tag]
  split
  · exact .inl rfl
  · split
    · exact .inr (.inl rfl)
    · exact .inr (.inr rfl)

lemma State.Admits.meaningful {comments : Bool} {c : Char} {s : State} (h : s.Admits comments c)
    (text : List Char) : Cell.Meaningful comments ⟨c, s.tag text⟩ := by
  cases s with
  | digits =>
    have hquote := h.ne (.inl rfl) (.inl rfl)
    have hpercent := h.ne (.inl rfl) (.inr rfl)
    exact ⟨by simp [State.tag], fun hc => absurd hc hquote, fun _ => h, by simp [State.tag],
      fun _ hc => absurd hc hpercent⟩
  | word =>
    have hquote := h.ne (.inr rfl) (.inl rfl)
    have hpercent := h.ne (.inr rfl) (.inr rfl)
    have htag := State.tag_word text
    refine ⟨fun hcomment => ?_, fun hc => absurd hc hquote, fun hdigits => ?_, fun _ => h,
      fun _ hc => absurd hc hpercent⟩
    · rw [show State.word.tag text = .comment from hcomment] at htag
      simp at htag
    · rw [show State.word.tag text = .digits from hdigits] at htag
      simp at htag
  | quoted =>
    exact ⟨by simp [State.tag], fun hc => absurd hc h, by simp [State.tag], by simp [State.tag],
      fun _ _ => .inr rfl⟩
  | comment =>
    exact ⟨fun _ => h, fun _ => .inr rfl, by simp [State.tag], by simp [State.tag],
      fun _ _ => .inl rfl⟩
  | openQuote | closeQuote =>
    obtain rfl : c = '"' := h
    exact ⟨by simp [State.tag], fun _ => .inl rfl, by simp [State.tag], by simp [State.tag],
      by simp⟩
  | normal | done =>
    exact ⟨by simp [State.tag], fun _ => .inl rfl, by simp [State.tag], by simp [State.tag],
      fun hcomments hc => absurd hc (h.2 hcomments)⟩

lemma Tinted.meaningful {comments : Bool} {s : State} {cell : Cell} {c : Char}
    (h : Tinted cell (s.step comments c, c)) : cell.Meaningful comments := by
  obtain ⟨char, tag⟩ := cell
  obtain ⟨hchar, text, htag⟩ := h
  obtain rfl : char = c := hchar
  obtain rfl : tag = (s.step comments char).tag text := htag
  exact (State.admits_step comments s char).meaningful text

end Scanner

/-- All tags fit. -/
def Meaningful (comments : Bool) (cells : List Cell) : Prop :=
  ∀ cell ∈ cells, cell.Meaningful comments

lemma meaningful_of_tinted {comments : Bool} {s : Scanner.State} {cells : List Cell}
    {text : List Char} (h : List.Forall₂ Scanner.Tinted cells (Scanner.trace comments s text)) :
    Meaningful comments cells := by
  induction text generalizing s cells with
  | nil =>
    cases h
    exact List.forall_mem_nil _
  | cons c rest ih =>
    rw [Scanner.trace] at h
    cases h with
    | cons hcell hrest => exact List.forall_mem_cons.2 ⟨hcell.meaningful, ih hrest⟩

/-- The tags that a scan gives fit. -/
lemma meaningful_classify (comments : Bool) (s : Scanner.State) (text : List Char) :
    Meaningful comments (classify comments s text) :=
  meaningful_of_tinted (forall₂_classify comments s text)

/-! ## All that an edit puts in comes from scans -/

/-- Whatever the computation returns has the property. -/
def Returns {α : Type} (a : Except EditError α) (Q : α → Prop) : Prop :=
  ∀ r, a = .ok r → Q r

lemma returns_pure {α : Type} {Q : α → Prop} {r : α} (h : Q r) : Returns (pure r) Q := by
  rintro _ ⟨⟩
  exact h

lemma Returns.bind {α β : Type} {a : Except EditError α} {f : α → Except EditError β}
    {Q : α → Prop} {R : β → Prop} (ha : Returns a Q) (hf : ∀ r, Q r → Returns (f r) R) :
    Returns (a >>= f) R := by
  intro r hr
  cases a with
  | error err => cases hr
  | ok r' => exact hf r' (ha r' rfl) r hr

/-- One of two computations goes on. -/
lemma Returns.bind_if {α β : Type} {p : Prop} [Decidable p] {a b : Except EditError α}
    {f : α → Except EditError β} {Q : α → Prop} {R : β → Prop} (ha : Returns a Q)
    (hb : Returns b Q) (hf : ∀ r, Q r → Returns (f r) R) :
    Returns (if p then a >>= f else b >>= f) R := by
  split
  · exact ha.bind hf
  · exact hb.bind hf

namespace Draft

variable {comments : Bool} {d d' d'' : Draft}

/-- The second draft comes from the first by changes that put in nothing but scans. -/
def Scans (comments : Bool) (d d' : Draft) : Prop :=
  ∃ cs, d'.changes = d.changes ++ cs ∧ d.buffer.Steps cs d'.buffer ∧
    ∀ c ∈ cs, ∃ s text, c.inserted = classify comments s text

lemma Scans.refl (comments : Bool) (d : Draft) : d.Scans comments d :=
  ⟨[], by simp, .nil _, by simp⟩

lemma Scans.trans (h : d.Scans comments d') (h' : d'.Scans comments d'') :
    d.Scans comments d'' := by
  obtain ⟨cs, hcs, hsteps, hscans⟩ := h
  obtain ⟨ds, hds, hsteps', hscans'⟩ := h'
  refine ⟨cs ++ ds, by rw [hds, hcs, List.append_assoc], hsteps.append hsteps', ?_⟩
  exact List.forall_mem_append.2 ⟨hscans, hscans'⟩

lemma Scans.extend (h : d.Scans comments d') {a : Except EditError (Draft × Nat)}
    (ha : Returns a fun r => d'.Scans comments r.1) : Returns a fun r => d.Scans comments r.1 :=
  fun r hr => h.trans (ha r hr)

lemma scans_put {start stop : Nat} (hstart : start ≤ stop) (hstop : stop ≤ d.buffer.length)
    (s : Scanner.State) (text : List Char) :
    d.Scans comments (d.put start stop (classify comments s text)) := by
  refine ⟨_, rfl, Buffer.Steps.single hstart hstop _, ?_⟩
  rw [List.forall_mem_singleton, Buffer.splice_snd]
  exact ⟨s, text, rfl⟩

lemma returns_replace (comments : Bool) (d : Draft) (start stop : Nat) (s : Scanner.State)
    (text : List Char) :
    Returns (d.replace start stop (tokenize comments s text)) (d.Scans comments) := by
  intro r hr
  obtain ⟨hstart, hstop, rfl⟩ := put_of_replace hr
  exact scans_put hstart hstop s text

lemma returns_remove (comments : Bool) (d : Draft) (start stop : Nat) :
    Returns (d.remove start stop) (d.Scans comments) := by
  by_cases hrange : start ≤ stop ∧ stop ≤ d.buffer.length
  · intro r hr
    rw [remove, Buffer.remove_eq_ok hrange.1 hrange.2] at hr
    cases hr
    exact scans_put hrange.1 hrange.2 .normal []
  · intro r hr
    rw [remove, Buffer.remove, Buffer.replaceTagged, Buffer.checkRange, if_neg hrange] at hr
    cases hr

lemma returns_insert (comments : Bool) (d : Draft) (position : Nat) (inserted : List Char) :
    Returns (d.insert comments position inserted) fun r => d.Scans comments r.1 :=
  (returns_replace comments d _ _ _ _).bind fun _ h => returns_pure h

lemma returns_refresh (comments : Bool) (d : Draft) (position : Nat) :
    Returns (d.refresh comments position) (d.Scans comments) :=
  (returns_insert comments d position []).bind fun _ h => returns_pure h

lemma Scans.refresh (h : d.Scans comments d') (position : Nat) :
    Returns (d'.refresh comments position) (d.Scans comments) :=
  fun r hr => h.trans (returns_refresh comments d' position r hr)

lemma returns_insertText (comments : Bool) (d : Draft) (position : Nat) (inserted : List Char) :
    Returns (d.insertText comments position inserted) fun r => d.Scans comments r.1 := by
  refine (returns_insert comments d position inserted).bind fun r₁ h₁ => ?_
  obtain ⟨d₁, caret⟩ := r₁
  refine Returns.bind_if (h₁.refresh position) (returns_pure h₁) fun d₂ h₂ => ?_
  exact Returns.bind_if (h₂.refresh _) (returns_pure h₂) fun d₃ h₃ => returns_pure h₃

lemma returns_newline (comments : Bool) (d : Draft) (position : Nat) :
    Returns (d.newline comments position) fun r => d.Scans comments r.1 := by
  refine (returns_replace comments d _ _ _ _).bind fun d₁ h₁ => ?_
  refine (h₁.refresh position).bind fun d₂ h₂ => ?_
  exact (h₂.refresh _).bind fun d₃ h₃ => returns_pure h₃

lemma returns_backspace (comments outdent : Bool) (d : Draft) (start stop : Nat) :
    Returns (d.backspace comments outdent start stop) fun r => d.Scans comments r.1 := by
  refine (returns_remove comments d start stop).bind fun d₁ h₁ => ?_
  dsimp only
  split
  · refine (returns_replace comments d₁ _ _ _ _).bind fun d₂ h₂ => ?_
    exact returns_pure (h₁.trans h₂)
  · exact h₁.extend (returns_insert comments d₁ start [])

/-- All that an edit puts into its draft comes from scans. -/
lemma returns_edit (d : Draft) (o : Options) (e : Edit) :
    Returns (d.edit o e) fun r => d.Scans o.comments r.1 := by
  rw [edit]
  dsimp only
  split
  · exact returns_backspace o.comments o.outdent d _ _
  · refine Returns.bind_if (returns_remove o.comments d _ _)
      (returns_pure (Scans.refl o.comments d)) fun d₁ h₁ => ?_
    split
    · exact h₁.extend (returns_newline o.comments d₁ _)
    · exact h₁.extend (returns_insertText o.comments d₁ _ _)

end Draft

/-! ## Changes and transactions -/

/-- The tags that the change took away and those that it put in fit. -/
structure Change.Meaningful (comments : Bool) (c : Change) : Prop where
  removed : MetaPostEditor.Meaningful comments c.removed
  inserted : MetaPostEditor.Meaningful comments c.inserted

/-- The tags that the transaction holds fit in the mode in which it was made. -/
def Transaction.Meaningful (t : Transaction) : Prop :=
  ∀ c ∈ t.changes, c.Meaningful t.comments

section

variable {comments : Bool} {x y : List Cell} {cs : List Change}

/-- If changes put in only tags that fit, they also take away only such tags. -/
lemma Trail.meaningful (h : Trail cs x y) (hx : Meaningful comments x)
    (hcs : ∀ c ∈ cs, Meaningful comments c.inserted) :
    Meaningful comments y ∧ ∀ c ∈ cs, c.Meaningful comments := by
  induction h with
  | nil => exact ⟨hx, by simp⟩
  | @cons c cs x y z hc _ ih =>
    -- what the change takes away was in the text before it
    obtain ⟨u, v, -, rfl, rfl⟩ := hc
    obtain ⟨hinserted, hcs⟩ := List.forall_mem_cons.1 hcs
    simp only [Meaningful, List.forall_mem_append] at hx
    have hy : Meaningful comments (u ++ c.inserted ++ v) := by
      simp only [Meaningful, List.forall_mem_append]
      exact ⟨⟨hx.1.1, hinserted⟩, hx.2⟩
    obtain ⟨hz, hrest⟩ := ih hy hcs
    exact ⟨hz, List.forall_mem_cons.2 ⟨⟨hx.1.2, hinserted⟩, hrest⟩⟩

lemma Buffer.meaningful_perform {b b' : Buffer} {c : Change} (h : b.perform c = .ok b')
    (hb : Meaningful comments b.cells) (hc : Meaningful comments c.inserted) :
    Meaningful comments b'.cells := by
  have hcells := cells_splice b c.inserted (Nat.le_add_right c.start c.removed.length)
  rw [perform] at h
  cases hrange : b.checkRange c.start (c.start + c.removed.length) with
  | error err =>
    rw [hrange] at h
    cases h
  | ok _ =>
    rw [hrange] at h
    cases h
    rw [hcells]
    intro cell hcell
    simp only [List.mem_append] at hcell
    rcases hcell with (hcell | hcell) | hcell
    · exact hb cell (List.mem_of_mem_take hcell)
    · exact hc cell hcell
    · exact hb cell (List.mem_of_mem_drop hcell)

/-- Changes whose tags fit can be made on any text whose tags fit. -/
lemma Buffer.meaningful_performAll {b b' : Buffer} (h : b.performAll cs = (.ok (), b'))
    (hb : Meaningful comments b.cells) (hcs : ∀ c ∈ cs, Meaningful comments c.inserted) :
    Meaningful comments b'.cells := by
  induction cs generalizing b with
  | nil =>
    cases h
    exact hb
  | cons c cs ih =>
    obtain ⟨hc, hcs⟩ := List.forall_mem_cons.1 hcs
    rw [performAll] at h
    cases hperform : b.perform c with
    | error err =>
      rw [hperform] at h
      cases h
    | ok b₁ =>
      rw [hperform] at h
      exact ih h (meaningful_perform hperform hb hc) hcs

end

/-! ## Operations -/

namespace History

lemma mem_undoStack_of_relimit {h : History} {old new : UInt64} {t : Transaction}
    (ht : t ∈ (h.relimit old new).undoStack) : t ∈ h.undoStack := by
  rw [relimit] at ht
  split at ht
  · exact List.mem_of_mem_take ht
  · exact ht

end History

namespace Editor

variable {ed : Editor}

/-- All tags of the text fit, and so do those in the history, each in its own mode. -/
structure Meaningful (ed : Editor) : Prop where
  cells : MetaPostEditor.Meaningful ed.options.comments ed.buffer.cells
  past : ∀ t ∈ ed.history.undoStack, t.Meaningful
  future : ∀ t ∈ ed.history.redoStack, t.Meaningful

lemma meaningful_of_empty {b : Buffer} {o : Options} {limit caret : Nat}
    (hb : MetaPostEditor.Meaningful o.comments b.cells) :
    Meaningful ⟨b, o, History.empty limit, caret⟩ :=
  ⟨hb, List.forall_mem_nil _, List.forall_mem_nil _⟩

lemma meaningful_load (ed : Editor) (text : List Char) : (ed.load text).Meaningful := by
  obtain ⟨b, hb, hcells⟩ := ed.load_spec text
  rw [hb]
  refine meaningful_of_empty ?_
  rw [hcells]
  exact meaningful_classify _ _ _

lemma Initial.meaningful (h : Initial ed) : ed.Meaningful := by
  cases h with
  | empty options => exact meaningful_of_empty (List.forall_mem_nil _)
  | ofText text => exact meaningful_load _ _

namespace Meaningful

lemma after (h : ed.Meaningful) (e : Edit) : (ed.after e).Meaningful := by
  rcases Nat.lt_or_ge ed.buffer.length (e.position + e.deleted) with hout | hin
  · rw [after_of_gt hout]
    exact h
  · obtain ⟨d, head, -, hd, -⟩ := ed.edit_eq e hin
    obtain ⟨cs, hcs, hsteps, hscans⟩ := Draft.returns_edit _ _ _ _ hd
    have hinserted : ∀ c ∈ cs, MetaPostEditor.Meaningful ed.options.comments c.inserted := by
      intro c hc
      obtain ⟨s, text, hscan⟩ := hscans c hc
      rw [hscan]
      exact meaningful_classify _ s text
    obtain ⟨hcells, hchanges⟩ := hsteps.trail.meaningful h.cells hinserted
    have happly := apply_of_edit hin hd
    rw [hcs, List.nil_append, History.commit_foldl_record] at happly
    rw [Editor.after, happly]
    -- the transaction holds the changes with an effect, if there are any
    by_cases hnone : effective cs = []
    · rw [if_pos hnone]
      exact ⟨hcells, h.past, h.future⟩
    · rw [if_neg hnone]
      refine ⟨hcells, fun t ht => ?_, List.forall_mem_nil _⟩
      rcases List.mem_cons.1 (List.mem_of_mem_take ht) with rfl | ht
      · intro c hc
        exact hchanges c (List.mem_of_mem_filter hc)
      · exact h.past t ht

lemma set (h : ed.Meaningful) (args : String) : (ed.set args).2.Meaningful := by
  obtain ⟨b, hb, -, hsame, hnew⟩ := ed.set_spec args
  rw [hb]
  refine ⟨?_, fun t ht => h.past t (History.mem_undoStack_of_relimit ht), ?_⟩
  · change MetaPostEditor.Meaningful (ed.options.set args).2.comments b.cells
    by_cases hmode : (ed.options.set args).2.comments = ed.options.comments
    · rw [hsame hmode, hmode]
      exact h.cells
    · rw [hnew hmode]
      exact meaningful_classify _ _ _
  · rw [History.redoStack_relimit]
    exact h.future

/-- Tags that were made in another mode are made anew, and all others fit. -/
lemma travelled {step : History → Buffer → Except EditError (Option Restored) × History × Buffer}
    {cs : List Change} {r : Restored} {hist : History} {b : Buffer} (h : ed.Meaningful)
    (hperform : ed.buffer.performAll cs = (.ok (), b))
    (hstep : step ed.history ed.buffer = (.ok (some r), hist, b))
    (hcs : ∀ c ∈ cs, MetaPostEditor.Meaningful r.comments c.inserted)
    (hpast : ∀ t ∈ hist.undoStack, t.Meaningful) (hfuture : ∀ t ∈ hist.redoStack, t.Meaningful) :
    (ed.travel step).2.Meaningful := by
  obtain ⟨b', hb', -, hsame, hnew⟩ := travel_of_step hstep
  rw [hb']
  refine ⟨?_, hpast, hfuture⟩
  change MetaPostEditor.Meaningful ed.options.comments b'.cells
  by_cases hmode : r.comments = ed.options.comments
  · rw [hmode] at hcs
    rw [hsame hmode]
    exact Buffer.meaningful_performAll hperform h.cells hcs
  · rw [hnew hmode]
    exact meaningful_classify _ _ _

lemma undo (h : ed.Meaningful) (hreach : ed.Reachable) : ed.undo.2.Meaningful := by
  rcases hreach.undo_trail with hnone | ⟨t, ts, x, y, hts, htrail, htext⟩
  · rw [undo_of_nil hnone]
    exact h
  · -- the text is the one that the transaction led to, so it can be taken back
    obtain ⟨b, hb, -⟩ := Buffer.performAll_of_trail htrail.reverse htext
    have hpast := h.past
    rw [hts, List.forall_mem_cons] at hpast
    refine h.travelled hb (History.undo_of_performAll hts hb) ?_ hpast.2
      (List.forall_mem_cons.2 ⟨hpast.1, h.future⟩)
    intro c hc
    obtain ⟨c', hc', rfl⟩ := List.mem_map.1 hc
    exact (hpast.1 c' (List.mem_reverse.1 hc')).removed

lemma redo (h : ed.Meaningful) (hreach : ed.Reachable) : ed.redo.2.Meaningful := by
  rcases hreach.redo_trail with hnone | ⟨t, ts, x, y, hts, htrail, htext⟩
  · rw [redo_of_nil hnone]
    exact h
  · obtain ⟨b, hb, -⟩ := Buffer.performAll_of_trail htrail htext
    have hfuture := h.future
    rw [hts, List.forall_mem_cons] at hfuture
    exact h.travelled hb (History.redo_of_performAll hts hb)
      (fun c hc => (hfuture.1 c hc).inserted) (List.forall_mem_cons.2 ⟨hfuture.1, h.past⟩)
      hfuture.2

lemma perform (h : ed.Meaningful) (hreach : ed.Reachable) (op : Operation) :
    (ed.perform op).Meaningful := by
  cases op with
  | edit e => exact h.after e
  | load text => exact meaningful_load ed text
  | set args => exact h.set args
  | undo => exact h.undo hreach
  | redo => exact h.redo hreach
  | markSaved => exact ⟨h.cells, h.past, h.future⟩
  | paste text => exact (perform_of_after (fun _ e hed => hed.after e) h text).1
  | type text => exact (perform_of_after (fun _ e hed => hed.after e) h text).2

end Meaningful

lemma Reachable.meaningful (h : ed.Reachable) : ed.Meaningful :=
  h.invariant (fun _ hinit => hinit.meaningful) fun _ op hreach hed => hed.perform hreach op

/-- **Every tag fits its character.**  This holds in every state of an editor, also if comments have
been switched on and off between edits, undos and redos.  An undo or a redo never brings back tags
that fit only while comments are shown otherwise. -/
theorem reachable_meaningful (h : ed.Reachable) :
    (∀ cell ∈ ed.buffer.cells, cell.Meaningful ed.options.comments) ∧
      (∀ cell ∈ ed.undo.2.buffer.cells, cell.Meaningful ed.options.comments) ∧
      ∀ cell ∈ ed.redo.2.buffer.cells, cell.Meaningful ed.options.comments := by
  have hundo := (h.meaningful.undo h).cells
  have hredo := (h.meaningful.redo h).cells
  rw [undo, options_travel] at hundo
  rw [redo, options_travel] at hredo
  exact ⟨h.meaningful.cells, hundo, hredo⟩

/-- A comment is typed and taken back while comments are shown, and made again after they have been
switched off.  The directive that does so is followed by one that is refused. -/
theorem reachable_meaningful_switched :
    ((ofText ['i', 'f']).run
        [.set "comments", .edit ⟨2, 0, ['%', '"', '1']⟩, .undo, .set "nocomments bad"]).Reachable ∧
      ((ofText ['i', 'f']).run
        [.set "comments", .edit ⟨2, 0, ['%', '"', '1']⟩, .undo,
          .set "nocomments bad"]).options.comments = false ∧
      Cell.mk '1' .quoted ∈ ((ofText ['i', 'f']).run
        [.set "comments", .edit ⟨2, 0, ['%', '"', '1']⟩, .undo,
          .set "nocomments bad"]).redo.2.buffer.cells ∧
      ∀ cell ∈ ((ofText ['i', 'f']).run
        [.set "comments", .edit ⟨2, 0, ['%', '"', '1']⟩, .undo,
          .set "nocomments bad"]).redo.2.buffer.cells, cell.tag ≠ .comment := by
  have hreach : ((ofText ['i', 'f']).run
      [.set "comments", .edit ⟨2, 0, ['%', '"', '1']⟩, .undo, .set "nocomments bad"]).Reachable :=
    ⟨_, _, .ofText _, rfl⟩
  have hmode : ((ofText ['i', 'f']).run
      [.set "comments", .edit ⟨2, 0, ['%', '"', '1']⟩, .undo,
        .set "nocomments bad"]).options.comments = false := by decide
  refine ⟨hreach, hmode, by decide, fun cell hcell htag => ?_⟩
  have hcomment := ((reachable_meaningful hreach).2.2 cell hcell).comment htag
  rw [hmode] at hcomment
  exact absurd hcomment.1 Bool.false_ne_true

end Editor
end MetaPostEditor
