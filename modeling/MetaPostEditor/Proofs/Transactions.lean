import MetaPostEditor.Proofs.BufferCalls
import MetaPostEditor.Proofs.LinearHistory
import Mathlib.Logic.Function.Iterate

/-!
# Transactions on a buffer

An editor makes few kinds of changes, but a history can be kept of any calls on a buffer
(`Session`).  Between the beginning and the end of a transaction there may be calls of all kinds, on
ranges that overlap, with any tags (`Batch`).  Each change is recorded as it is made.

What is recorded of a transaction leads from the cells at its beginning to those at its end, however
the changes shift one another (`Session.transact_spec`).  So the history mirrors a zipper whose
entries hold these cells, together with what is to be told when they come back (`Moment`).  The main
result, `Session.undo_redo_transactions`, reads off this zipper what a row of undos and a row of
redos pass through.
-/

namespace MetaPostEditor

/-! ## Sessions -/

/-- A buffer, and the history of what is done to it. -/
structure Session where
  buffer : Buffer
  history : History
deriving DecidableEq

/-- A transaction as its caller makes it. -/
structure Batch where
  caretBefore : Nat
  /-- Whether comments are shown while the calls are made. -/
  comments : Bool
  calls : List Buffer.Mutation
  caretAfter : Nat

namespace Buffer

variable {b b' : Buffer} {m : Mutation} {c : Change}

/-- The changes that calls make, one after the other.  A call that is refused makes none. -/
def changesOf (b : Buffer) : List Mutation → List Change
  | [] => []
  | m :: ms =>
    match b.mutate m with
    | .ok (b', c) => c :: b'.changesOf ms
    | .error _ => b.changesOf ms

lemma changesOf_of_ok (h : b.mutate m = .ok (b', c)) (ms : List Mutation) :
    b.changesOf (m :: ms) = c :: b'.changesOf ms := by
  rw [changesOf, h]

lemma changesOf_of_error {e : EditError} (h : b.mutate m = .error e) (ms : List Mutation) :
    b.changesOf (m :: ms) = b.changesOf ms := by
  rw [changesOf, h]

/-- A call that is accepted is one step. -/
lemma steps_of_mutate (h : b.mutate m = .ok (b', c)) : b.Steps [c] b' := by
  obtain ⟨hrefusal, -⟩ := strips_of_mutate h
  obtain ⟨hin, -⟩ := Mutation.refusal?_eq_none_iff.1 hrefusal
  rw [Mutation.Outside, length_text, not_or, Nat.not_lt, Nat.not_lt] at hin
  rw [mutate_eq, hrefusal] at h
  have hsteps := Steps.single hin.1 hin.2 (List.zipWith Cell.mk m.text m.tags)
  rwa [Except.ok.inj h] at hsteps

end Buffer

/-- One of the changes has an effect. -/
def Batch.Effective (t : Batch) (b : Buffer) : Prop :=
  ∃ c ∈ b.changesOf t.calls, c.isNoop = false

namespace Session

/-- Makes a change and records it.  A call that is refused leaves all as it is. -/
def call (s : Session) (m : Buffer.Mutation) : Session :=
  match s.buffer.mutate m with
  | .ok (buffer, change) => ⟨buffer, s.history.record change⟩
  | .error _ => s

/-- Makes a transaction, from its beginning to its end. -/
def transact (s : Session) (t : Batch) : Session :=
  let made := t.calls.foldl call ⟨s.buffer, s.history.begin t.caretBefore t.comments⟩
  ⟨made.buffer, made.history.commit t.caretAfter⟩

/-- Takes back the newest transaction. -/
def undo (s : Session) : Except EditError (Option Restored) × Session :=
  let (outcome, history, buffer) := s.history.undo s.buffer
  (outcome, ⟨buffer, history⟩)

/-- Makes the transaction again that was taken back last. -/
def redo (s : Session) : Except EditError (Option Restored) × Session :=
  let (outcome, history, buffer) := s.history.redo s.buffer
  (outcome, ⟨buffer, history⟩)

/-- Each of the transactions, made one after the other, has an effect. -/
def AllEffective : Session → List Batch → Prop
  | _, [] => True
  | s, t :: ts => t.Effective s.buffer ∧ AllEffective (s.transact t) ts

variable {s : Session} {t : Batch}

/-! ## What a transaction does -/

/-- The changes of the calls are recorded, and lead to the buffer as it is then. -/
lemma foldl_call_spec (s : Session) (ms : List Buffer.Mutation) :
    ∃ b, ms.foldl call s = ⟨b, (s.buffer.changesOf ms).foldl History.record s.history⟩ ∧
      s.buffer.Steps (s.buffer.changesOf ms) b := by
  induction ms generalizing s with
  | nil => exact ⟨s.buffer, rfl, .nil _⟩
  | cons m ms ih =>
    cases hm : s.buffer.mutate m with
    | error e =>
      have hcall : s.call m = s := by rw [call, hm]
      rw [List.foldl_cons, hcall, Buffer.changesOf_of_error hm]
      exact ih s
    | ok result =>
      obtain ⟨b₁, c⟩ := result
      have hcall : s.call m = ⟨b₁, s.history.record c⟩ := by rw [call, hm]
      obtain ⟨b, hb, hsteps⟩ := ih ⟨b₁, s.history.record c⟩
      rw [List.foldl_cons, hcall, Buffer.changesOf_of_ok hm]
      exact ⟨b, hb, (Buffer.steps_of_mutate hm).append hsteps⟩

/-- All that a transaction can do. -/
lemma transact_spec (s : Session) (t : Batch) :
    ∃ b, s.buffer.Steps (s.buffer.changesOf t.calls) b ∧
      s.transact t = ⟨b,
        if effective (s.buffer.changesOf t.calls) = [] then { s.history with pending := none }
        else s.history.push ⟨effective (s.buffer.changesOf t.calls), t.caretBefore, t.caretAfter,
          t.comments⟩⟩ := by
  obtain ⟨b, hb, hsteps⟩ :=
    foldl_call_spec ⟨s.buffer, s.history.begin t.caretBefore t.comments⟩ t.calls
  refine ⟨b, hsteps, ?_⟩
  rw [transact, hb, ← History.commit_foldl_record]

lemma limit_transact (s : Session) (t : Batch) :
    (s.transact t).history.limit = s.history.limit := by
  obtain ⟨b, -, heq⟩ := s.transact_spec t
  rw [heq]
  split <;> rfl

/-- A transaction with an effect is the newest in the history, and leads from the cells before it to
the cells behind it. -/
lemma history_transact (h : t.Effective s.buffer) :
    ∃ cs, Trail cs s.buffer.cells (s.transact t).buffer.cells ∧
      (s.transact t).history = s.history.push ⟨cs, t.caretBefore, t.caretAfter, t.comments⟩ := by
  obtain ⟨b, hsteps, heq⟩ := s.transact_spec t
  have hsome : effective (s.buffer.changesOf t.calls) ≠ [] := by
    obtain ⟨c, hc, hnoop⟩ := h
    exact List.ne_nil_of_mem (List.mem_filter.2 ⟨hc, by rw [hnoop, Bool.not_false]⟩)
  rw [if_neg hsome] at heq
  rw [heq]
  exact ⟨_, hsteps.trail.effective, rfl⟩

/-- A transaction without effect leaves the buffer and both stacks as they were. -/
lemma transact_of_isNoop (h : ∀ c ∈ s.buffer.changesOf t.calls, c.isNoop = true) :
    s.transact t = ⟨s.buffer, { s.history with pending := none }⟩ := by
  obtain ⟨b, hsteps, heq⟩ := s.transact_spec t
  have hnone : effective (s.buffer.changesOf t.calls) = [] := by
    rw [effective, List.filter_eq_nil_iff]
    intro c hc
    rw [h c hc]
    exact Bool.false_ne_true
  rw [heq, if_pos hnone, hsteps.eq_of_effective hnone]

end Session

/-! ## The zipper beside a session -/

/-- The cells at the beginning or the end of a transaction, and what is told when they come back. -/
structure Moment where
  cells : List Cell
  told : Restored

/-- The changes lead from the one moment to the other, and what is to be told has been noted. -/
def Transaction.Joins (t : Transaction) (e : Entry Moment) : Prop :=
  Trail t.changes e.before.cells e.after.cells ∧ e.before.told = ⟨t.caretBefore, t.comments⟩ ∧
    e.after.told = ⟨t.caretAfter, t.comments⟩

/-- All edits that a zipper holds, the oldest first. -/
def Zipper.entries {σ : Type} (z : Zipper σ) : List (Entry σ) :=
  z.past.reverse ++ z.future

namespace Session

variable {s : Session} {t : Batch} {ts : List Batch} {z : Zipper Moment} {e : Entry Moment}
  {es : List (Entry Moment)}

/-- A transaction, by the moments at which it begins and ends. -/
def entry (s : Session) (t : Batch) : Entry Moment :=
  ⟨⟨s.buffer.cells, ⟨t.caretBefore, t.comments⟩⟩,
    ⟨(s.transact t).buffer.cells, ⟨t.caretAfter, t.comments⟩⟩⟩

/-- Transactions that are made one after the other. -/
def entries : Session → List Batch → List (Entry Moment)
  | _, [] => []
  | s, t :: ts => s.entry t :: entries (s.transact t) ts

lemma length_entries (s : Session) (ts : List Batch) : (s.entries ts).length = ts.length := by
  induction ts generalizing s with
  | nil => rfl
  | cons t ts ih => rw [entries, List.length_cons, ih, List.length_cons]

lemma getElem?_entries {i : Nat} (h : ts[i]? = some t) :
    (s.entries ts)[i]? = some (((ts.take i).foldl transact s).entry t) := by
  induction ts generalizing s i with
  | nil => simp at h
  | cons t' ts ih =>
    cases i with
    | zero =>
      obtain rfl : t' = t := by simpa using h
      rfl
    | succ i => exact ih (by simpa using h)

/-- The cells are those on which the zipper stands, and the history mirrors it as far as it goes. -/
structure Mirrored (s : Session) (z : Zipper Moment) : Prop where
  now : z.now.cells = s.buffer.cells
  mirrors : z.Mirrors False Transaction.Joins Moment.cells s.history

namespace Mirrored

/-- A transaction with an effect adds its entry, if there is room. -/
lemma transact (h : s.Mirrored z) (heffective : t.Effective s.buffer)
    (hroom : z.past.length < s.history.limit) :
    (s.transact t).Mirrored ⟨(s.entry t).after, s.entry t :: z.past, []⟩ := by
  obtain ⟨cs, htrail, hhistory⟩ := history_transact heffective
  -- the caret may have moved since the last transaction ended, so only the cells are the same
  have hmoved := h.mirrors.move (s := (s.entry t).before) h.now.symm
  have hpushed := hmoved.push (s := (s.entry t).after)
    (t := ⟨cs, t.caretBefore, t.caretAfter, t.comments⟩) ⟨htrail, rfl, rfl⟩
  rw [← hhistory, Zipper.push, Zipper.move, List.take_of_length_le hroom] at hpushed
  exact ⟨rfl, hpushed⟩

lemma foldl_transact (h : s.Mirrored z) (heffective : s.AllEffective ts)
    (hroom : z.past.length + ts.length ≤ s.history.limit) (hfuture : z.future = []) :
    ∃ z', (ts.foldl Session.transact s).Mirrored z' ∧
      z'.past = (s.entries ts).reverse ++ z.past ∧ z'.future = [] := by
  induction ts generalizing s z with
  | nil => exact ⟨z, h, rfl, hfuture⟩
  | cons t ts ih =>
    rw [List.length_cons] at hroom
    have hstep := h.transact heffective.1 (by omega)
    obtain ⟨z', hz', hpast, hfuture'⟩ := ih hstep heffective.2
      (by rw [limit_transact, List.length_cons]; omega) rfl
    refine ⟨z', hz', ?_, hfuture'⟩
    rw [hpast, entries, List.reverse_cons, List.append_assoc, List.singleton_append]

/-- An undo tells what was noted at the beginning of the newest transaction, and leads back there.
-/
lemma undo (h : s.Mirrored z) (hpast : z.past = e :: es) :
    s.undo.1 = .ok (some e.before.told) ∧ s.undo.2.buffer.cells = e.before.cells ∧
      s.undo.2.Mirrored z.back ∧ z.back.past = es ∧ z.back.entries = z.entries := by
  have hown : z.past ≠ [] := by simp [hpast]
  rcases h.mirrors.undo (.inl hown) with ⟨-, hnone⟩ | ⟨t, ts, e', es', hts, hes, ht, hk, hmirrors⟩
  · exact absurd hnone hown
  · obtain ⟨rfl, rfl⟩ : e = e' ∧ es = es' := by simpa [hpast] using hes
    obtain ⟨htrail, hbefore, -⟩ := ht
    have hx : s.buffer.cells = e.after.cells := h.now.symm.trans hk.symm
    obtain ⟨b, hb, -, hcells⟩ := Buffer.performAll_of_trail htrail.reverse (congrArg textOf hx)
    rw [Zipper.back_of_cons hpast] at hmirrors ⊢
    rw [Session.undo, History.undo_of_performAll hts hb, hbefore]
    refine ⟨rfl, hcells hx, ⟨(hcells hx).symm, hmirrors⟩, rfl, ?_⟩
    simp [Zipper.entries, hpast]

/-- A redo tells what was noted at the end of the transaction that was taken back last, and leads
there again. -/
lemma redo (h : s.Mirrored z) (hfuture : z.future = e :: es) :
    s.redo.1 = .ok (some e.after.told) ∧ s.redo.2.buffer.cells = e.after.cells ∧
      s.redo.2.Mirrored z.forth ∧ z.forth.future = es ∧ z.forth.entries = z.entries := by
  have hown : z.future ≠ [] := by simp [hfuture]
  rcases h.mirrors.redo (.inl hown) with ⟨-, hnone⟩ | ⟨t, ts, e', es', hts, hes, ht, hk, hmirrors⟩
  · exact absurd hnone hown
  · obtain ⟨rfl, rfl⟩ : e = e' ∧ es = es' := by simpa [hfuture] using hes
    obtain ⟨htrail, -, hafter⟩ := ht
    have hx : s.buffer.cells = e.before.cells := h.now.symm.trans hk.symm
    obtain ⟨b, hb, -, hcells⟩ := Buffer.performAll_of_trail htrail (congrArg textOf hx)
    rw [Zipper.forth_of_cons hfuture] at hmirrors ⊢
    rw [Session.redo, History.redo_of_performAll hts hb, hafter]
    refine ⟨rfl, hcells hx, ⟨(hcells hx).symm, hmirrors⟩, rfl, ?_⟩
    simp [Zipper.entries, hfuture]

/-- Steps that each take one entry from one side to the other, as many as that side holds. -/
lemma iterate {f : Session → Session} {g : Zipper Moment → Zipper Moment}
    {side : Zipper Moment → List (Entry Moment)}
    (hstep : ∀ {s z e es}, s.Mirrored z → side z = e :: es →
      (f s).Mirrored (g z) ∧ side (g z) = es ∧ (g z).entries = z.entries)
    (h : s.Mirrored z) {k : Nat} (hk : k ≤ (side z).length) :
    ∃ z', (f^[k] s).Mirrored z' ∧ side z' = (side z).drop k ∧ z'.entries = z.entries := by
  induction k with
  | zero => exact ⟨z, h, rfl, rfl⟩
  | succ k ih =>
    obtain ⟨z', hz', hside, hentries⟩ := ih (by omega)
    rw [List.drop_eq_getElem_cons hk] at hside
    obtain ⟨hz'', hside', hentries'⟩ := hstep hz' hside
    rw [Function.iterate_succ_apply']
    exact ⟨g z', hz'', hside', hentries'.trans hentries⟩

lemma undo_iterate (h : s.Mirrored z) {k : Nat} (hk : k ≤ z.past.length) :
    ∃ z', ((fun s => s.undo.2)^[k] s).Mirrored z' ∧ z'.past = z.past.drop k ∧
      z'.entries = z.entries :=
  iterate (fun h hpast => (h.undo hpast).2.2) h hk

lemma redo_iterate (h : s.Mirrored z) {k : Nat} (hk : k ≤ z.future.length) :
    ∃ z', ((fun s => s.redo.2)^[k] s).Mirrored z' ∧ z'.future = z.future.drop k ∧
      z'.entries = z.entries :=
  iterate (fun h hfuture => (h.redo hfuture).2.2) h hk

/-- What the undo of an entry finds, after the undos of those in front of it. -/
lemma undo_getElem? (h : s.Mirrored z) {k : Nat} (he : z.past[k]? = some e) :
    ((fun s => s.undo.2)^[k] s).undo.1 = .ok (some e.before.told) ∧
      ((fun s => s.undo.2)^[k + 1] s).buffer.cells = e.before.cells := by
  obtain ⟨hk, rfl⟩ := List.getElem?_eq_some_iff.1 he
  obtain ⟨z', hz', hpast, -⟩ := h.undo_iterate (Nat.le_of_lt hk)
  obtain ⟨htold, hcells, -⟩ := hz'.undo (hpast.trans (List.drop_eq_getElem_cons hk))
  rw [Function.iterate_succ_apply']
  exact ⟨htold, hcells⟩

/-- What the redo of an entry finds, after the redos of those in front of it. -/
lemma redo_getElem? (h : s.Mirrored z) {k : Nat} (he : z.future[k]? = some e) :
    ((fun s => s.redo.2)^[k] s).redo.1 = .ok (some e.after.told) ∧
      ((fun s => s.redo.2)^[k + 1] s).buffer.cells = e.after.cells := by
  obtain ⟨hk, rfl⟩ := List.getElem?_eq_some_iff.1 he
  obtain ⟨z', hz', hfuture, -⟩ := h.redo_iterate (Nat.le_of_lt hk)
  obtain ⟨htold, hcells, -⟩ := hz'.redo (hfuture.trans (List.drop_eq_getElem_cons hk))
  rw [Function.iterate_succ_apply']
  exact ⟨htold, hcells⟩

/-- When all entries have been taken back, they can be made again in their order. -/
lemma undo_all (h : s.Mirrored z) :
    ∃ z', ((fun s => s.undo.2)^[z.past.length] s).Mirrored z' ∧ z'.future = z.entries := by
  obtain ⟨z', hz', hpast, hentries⟩ := h.undo_iterate (Nat.le_refl _)
  rw [List.drop_length] at hpast
  refine ⟨z', hz', ?_⟩
  rw [← hentries, Zipper.entries, hpast, List.reverse_nil, List.nil_append]

end Mirrored

/-- After transactions with an effect for which there is room, the history mirrors their entries. -/
lemma exists_mirrored (heffective : s.AllEffective ts) (hroom : ts.length ≤ s.history.limit) :
    ∃ z, (ts.foldl transact s).Mirrored z ∧ z.past = (s.entries ts).reverse ∧
      z.entries = s.entries ts := by
  have hstart : s.Mirrored (.start ⟨s.buffer.cells, ⟨0, false⟩⟩) :=
    ⟨rfl, Zipper.Mirrors.start False.elim _⟩
  obtain ⟨z, hz, hpast, hfuture⟩ := hstart.foldl_transact heffective
    (by simpa [Zipper.start] using hroom) rfl
  have hpast' : z.past = (s.entries ts).reverse := by simpa [Zipper.start] using hpast
  refine ⟨z, hz, hpast', ?_⟩
  rw [Zipper.entries, hpast', hfuture, List.reverse_reverse, List.append_nil]

/-- **Transactions are taken back and made again.**  If transactions with an effect, not more than
the history keeps, are made one after the other, as many undos succeed.  They pass through the
styled texts at the beginnings of the transactions, the newest first, and each tells the caret and
the mode that were noted there.  As many redos then succeed.  They pass through the styled texts at
the ends of the transactions, and each tells the caret that was noted there.  A transaction whose
changes all are without effect leaves the buffer and both stacks as they were. -/
theorem undo_redo_transactions (s : Session) :
    (∀ ts : List Batch, ts.length ≤ s.history.limit → s.AllEffective ts →
      ∀ i t, ts[i]? = some t →
        ((fun s => s.undo.2)^[ts.length - 1 - i] (ts.foldl transact s)).undo.1 =
          .ok (some ⟨t.caretBefore, t.comments⟩) ∧
        ((fun s => s.undo.2)^[ts.length - i] (ts.foldl transact s)).buffer.cells =
          ((ts.take i).foldl transact s).buffer.cells ∧
        ((fun s => s.redo.2)^[i]
            ((fun s => s.undo.2)^[ts.length] (ts.foldl transact s))).redo.1 =
          .ok (some ⟨t.caretAfter, t.comments⟩) ∧
        ((fun s => s.redo.2)^[i + 1]
            ((fun s => s.undo.2)^[ts.length] (ts.foldl transact s))).buffer.cells =
          ((ts.take (i + 1)).foldl transact s).buffer.cells) ∧
    ∀ t : Batch, (∀ c ∈ s.buffer.changesOf t.calls, c.isNoop = true) →
      (s.transact t).buffer = s.buffer ∧
        (s.transact t).history.undoStack = s.history.undoStack ∧
        (s.transact t).history.redoStack = s.history.redoStack := by
  refine ⟨fun ts hroom heffective i t ht => ?_, fun t hnoop => ?_⟩
  · obtain ⟨hi, -⟩ := List.getElem?_eq_some_iff.1 ht
    obtain ⟨z, hz, hpast, hentries⟩ := exists_mirrored heffective hroom
    have hlength : z.past.length = ts.length := by
      rw [hpast, List.length_reverse, length_entries]
    have hentry := getElem?_entries (s := s) ht
    -- the newest entry is the first in the past, and the last of all entries
    have hlast : z.past[ts.length - 1 - i]? = some (((ts.take i).foldl transact s).entry t) := by
      rw [hpast, List.getElem?_reverse (by rw [length_entries]; omega), length_entries, ← hentry]
      congr 1
      omega
    have hundo := hz.undo_getElem? hlast
    rw [show ts.length - 1 - i + 1 = ts.length - i by omega] at hundo
    obtain ⟨z', hz', hfuture⟩ := hz.undo_all
    rw [hlength] at hz'
    have hredo := hz'.redo_getElem? (hfuture ▸ hentries ▸ hentry)
    refine ⟨hundo.1, hundo.2, hredo.1, hredo.2.trans ?_⟩
    rw [List.take_add_one, ht, Option.toList_some, List.foldl_append]
    rfl
  · rw [transact_of_isNoop hnoop]
    exact ⟨rfl, rfl, rfl⟩

/-- The first transaction puts a character behind what it has just cut out.  The second one replaces
both by one character, is refused a range that is then too long, and puts the old tag back.  Two
undos lead to the start, and two redos to the end. -/
theorem undo_redo_transactions_overlapping :
    ∃ (s : Session) (t₁ t₂ : Batch),
      s = ⟨Buffer.ofText ['a', 'b'], History.empty 2⟩ ∧
      t₁.calls = [.replaceTagged 0 1 [] [], .replaceTagged 1 1 ['c'] [.digits]] ∧
      t₂.calls = [.replaceTagged 0 2 ['b'] [.quoted], .replaceTagged 0 2 [] [],
        .restyle 0 1 [⟨.normal, ['b'], 0, 1⟩]] ∧
      [t₁, t₂].length ≤ s.history.limit ∧ s.AllEffective [t₁, t₂] ∧
      ((fun s => s.undo.2)^[1] ([t₁, t₂].foldl transact s)).undo.1 = .ok (some ⟨1, false⟩) ∧
      ((fun s => s.undo.2)^[2] ([t₁, t₂].foldl transact s)).buffer.cells =
        (Buffer.ofText ['a', 'b']).cells ∧
      ((fun s => s.redo.2)^[2] ((fun s => s.undo.2)^[2] ([t₁, t₂].foldl transact s))).buffer.cells =
        (Buffer.ofText ['b']).cells := by
  refine ⟨_, ⟨1, false, _, 2⟩, ⟨2, true, _, 1⟩, rfl, rfl, rfl, by decide, ?_⟩
  have heffective : AllEffective ⟨Buffer.ofText ['a', 'b'], History.empty 2⟩
      [⟨1, false, [.replaceTagged 0 1 [] [], .replaceTagged 1 1 ['c'] [.digits]], 2⟩,
        ⟨2, true, [.replaceTagged 0 2 ['b'] [.quoted], .replaceTagged 0 2 [] [],
          .restyle 0 1 [⟨.normal, ['b'], 0, 1⟩]], 1⟩] :=
    ⟨⟨⟨0, [⟨'a', .normal⟩], []⟩, by decide, rfl⟩,
      ⟨⟨0, [⟨'b', .normal⟩, ⟨'c', .digits⟩], [⟨'b', .quoted⟩]⟩, by decide, rfl⟩, trivial⟩
  obtain ⟨hall, -⟩ := undo_redo_transactions ⟨Buffer.ofText ['a', 'b'], History.empty 2⟩
  have hfirst := hall _ (by decide) heffective 0 _ rfl
  have hsecond := hall _ (by decide) heffective 1 _ rfl
  exact ⟨heffective, hfirst.1, hfirst.2.1, hsecond.2.2.2.trans (by decide)⟩

end Session
end MetaPostEditor
