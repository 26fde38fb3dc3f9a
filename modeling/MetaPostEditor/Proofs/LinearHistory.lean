import MetaPostEditor.Proofs.Operations

/-!
# Linear histories

A zipper stands at one state of a linear history, with the edits that led to it on one side and
those that were taken back on the other (`Zipper`).  Of each edit it keeps the state before and the
state after it, so going back and forth on a zipper is nothing but looking states up.

The history of an editor holds transactions instead.  It *mirrors* a zipper when each transaction
stands for an entry of the zipper, and the entries join: what one entry ends with is what the next
one begins with (`Zipper.Mirrors`).  What states are, what a transaction must have to do with its
entry and which part of the states joins are parameters here; each use chooses its own.
-/

namespace MetaPostEditor

variable {σ κ : Type}

/-- An edit, by the states before and after it. -/
structure Entry (σ : Type) where
  before : σ
  after : σ

/-- The same edit, with its states seen in another way. -/
def Entry.map {τ : Type} (f : σ → τ) (e : Entry σ) : Entry τ :=
  ⟨f e.before, f e.after⟩

/-- A state in a linear history. -/
structure Zipper (σ : Type) where
  now : σ
  /-- The edits that can be taken back, the newest first. -/
  past : List (Entry σ)
  /-- The edits that have been taken back, the last one first. -/
  future : List (Entry σ)

namespace Zipper

variable {z : Zipper σ} {e : Entry σ} {es : List (Entry σ)}

/-- A state before any edit. -/
def start (s : σ) : Zipper σ :=
  ⟨s, [], []⟩

/-- Another state, without an entry. -/
def move (z : Zipper σ) (s : σ) : Zipper σ :=
  { z with now := s }

/-- A new entry.  The newest entries are kept, as many as the limit says. -/
def push (z : Zipper σ) (limit : Nat) (s : σ) : Zipper σ :=
  ⟨s, (⟨z.now, s⟩ :: z.past).take limit, []⟩

/-- The edits that can be taken back are cut down when their number is set to another value. -/
def relimit (z : Zipper σ) (old new : UInt64) : Zipper σ :=
  if new ≠ old then { z with past := z.past.take new.toNat } else z

@[simp]
lemma now_relimit (z : Zipper σ) (old new : UInt64) : (z.relimit old new).now = z.now := by
  rw [relimit]
  split <;> rfl

/-- The state before the newest edit. -/
def back (z : Zipper σ) : Zipper σ :=
  match z.past with
  | [] => z
  | e :: past => ⟨e.before, past, e :: z.future⟩

/-- The state after the edit that was taken back last. -/
def forth (z : Zipper σ) : Zipper σ :=
  match z.future with
  | [] => z
  | e :: future => ⟨e.after, e :: z.past, future⟩

lemma back_of_nil (h : z.past = []) : z.back = z := by
  rw [back, h]

lemma back_of_cons (h : z.past = e :: es) : z.back = ⟨e.before, es, e :: z.future⟩ := by
  rw [back, h]

lemma forth_of_nil (h : z.future = []) : z.forth = z := by
  rw [forth, h]

lemma forth_of_cons (h : z.future = e :: es) : z.forth = ⟨e.after, e :: z.past, es⟩ := by
  rw [forth, h]

/-- The same history, with all states seen in another way. -/
def map {τ : Type} (f : σ → τ) (z : Zipper σ) : Zipper τ :=
  ⟨f z.now, z.past.map (Entry.map f), z.future.map (Entry.map f)⟩

/-- What an edit does to a zipper: an edit with an effect, which the revision tells, makes a new
entry up to the state `changed`, and any other does not. -/
def note (z : Zipper σ) (ed ed' : Editor) (idle changed : σ) : Zipper σ :=
  if ed'.buffer.revision = ed.buffer.revision then z.move idle
  else z.push ed.options.undolevels.toNat changed

/-- An edit without effect leaves the buffer as it is. -/
lemma now_note {ed ed' : Editor} {idle changed : σ} (z : Zipper σ) (hedited : ed.Edited ed')
    (hidle : ed'.buffer = ed.buffer → idle = changed) :
    (z.note ed ed' idle changed).now = changed := by
  rw [note]
  cases hedited with
  | refused =>
    rw [if_pos rfl]
    exact hidle rfl
  | idle =>
    rw [if_pos rfl]
    exact hidle rfl
  | effective _ _ hcount =>
    rw [if_neg (Nat.ne_of_gt hcount)]
    rfl

/-! ## Transactions for entries -/

section

variable (whole : Prop) (R : Transaction → Entry σ → Prop)

/-- Transactions stand for entries that join, from one end at `k` on.  Behind the last entry there
may be more transactions, unless the list is `whole`. -/
inductive Linked (near far : Entry σ → κ) : κ → List Transaction → List (Entry σ) → Prop
  | nil {k : κ} {ts : List Transaction} (hts : whole → ts = []) : Linked near far k ts []
  | cons {k : κ} {t : Transaction} {e : Entry σ} {ts : List Transaction} {es : List (Entry σ)}
      (ht : R t e) (hk : near e = k) (h : Linked near far (far e) ts es) :
      Linked near far k (t :: ts) (e :: es)

/-- The transactions of a history stand for the entries of a zipper, and the parts `key` of their
states join. -/
structure Mirrors (key : σ → κ) (h : History) (z : Zipper σ) : Prop where
  past :
    Linked whole R (fun e => key e.after) (fun e => key e.before) (key z.now) h.undoStack z.past
  future :
    Linked whole R (fun e => key e.before) (fun e => key e.after) (key z.now) h.redoStack z.future

end

variable {whole : Prop} {R : Transaction → Entry σ → Prop} {near far : Entry σ → κ} {k : κ}
  {ts : List Transaction} {key : σ → κ} {h : History} {t : Transaction}

lemma Linked.take (hl : Linked whole R near far k ts es) (n : Nat) :
    Linked whole R near far k (ts.take n) (es.take n) := by
  induction hl generalizing n with
  | nil hts =>
    rw [List.take_nil]
    exact .nil fun hw => by rw [hts hw, List.take_nil]
  | cons ht hk _ ih =>
    cases n with
    | zero => exact .nil fun _ => rfl
    | succ n => exact .cons ht hk (ih n)

lemma Linked.own (hl : Linked whole R near far k ts es) (hw : whole) : es ≠ [] ∨ ts = [] := by
  cases hl with
  | nil hts => exact .inr (hts hw)
  | cons => exact .inl (List.cons_ne_nil _ _)

/-- The first transaction and the first entry, if there are any. -/
lemma Linked.uncons (hl : Linked whole R near far k ts es) (hown : es ≠ [] ∨ ts = []) :
    (ts = [] ∧ es = []) ∨
      ∃ t ts' e es', ts = t :: ts' ∧ es = e :: es' ∧ R t e ∧ near e = k ∧
        Linked whole R near far (far e) ts' es' := by
  cases hl with
  | nil => exact .inl ⟨hown.resolve_left (not_not_intro rfl), rfl⟩
  | cons ht hk hl' => exact .inr ⟨_, _, _, _, rfl, rfl, ht, hk, hl'⟩

/-- Entries whose states are seen in another way join as before. -/
lemma Linked.map {τ ι : Type} {f : σ → τ} {g : κ → ι} {R' : Transaction → Entry τ → Prop}
    {near' far' : Entry τ → ι} (hl : Linked whole R near far k ts es)
    (hnear : ∀ e, near' (e.map f) = g (near e)) (hfar : ∀ e, far' (e.map f) = g (far e))
    (hR : ∀ t ∈ ts, ∀ e, R t e → R' t (e.map f)) :
    Linked whole R' near' far' (g k) ts (es.map (Entry.map f)) := by
  induction hl with
  | nil hts => exact .nil hts
  | @cons k t e ts es ht hk _ ih =>
    obtain ⟨hfirst, hrest⟩ := List.forall_mem_cons.1 hR
    refine .cons (hfirst e ht) (by rw [hnear, hk]) ?_
    rw [hfar]
    exact ih hrest

namespace Mirrors

lemma start (hw : whole → h.undoStack = [] ∧ h.redoStack = []) (s : σ) :
    Mirrors whole R key h (.start s) :=
  ⟨.nil fun hwhole => (hw hwhole).1, .nil fun hwhole => (hw hwhole).2⟩

lemma move (m : Mirrors whole R key h z) {s : σ} (hs : key s = key z.now) :
    Mirrors whole R key h (z.move s) := by
  obtain ⟨hpast, hfuture⟩ := m
  rw [← hs] at hpast hfuture
  exact ⟨hpast, hfuture⟩

lemma push (m : Mirrors whole R key h z) {s : σ} (ht : R t ⟨z.now, s⟩) :
    Mirrors whole R key (h.push t) (z.push h.limit s) :=
  ⟨(Linked.cons ht rfl m.past).take h.limit, .nil fun _ => rfl⟩

lemma relimit (m : Mirrors whole R key h z) (old new : UInt64) :
    Mirrors whole R key (h.relimit old new) (z.relimit old new) := by
  rw [History.relimit, Zipper.relimit]
  split
  · exact ⟨m.past.take new.toNat, m.future⟩
  · exact m

/-- A history mirrors the states seen in another way, if its transactions stand for them. -/
lemma map {f : σ → σ} {R' : Transaction → Entry σ → Prop} (m : Mirrors whole R id h z)
    (hpast : ∀ t ∈ h.undoStack, ∀ e, R t e → R' t (e.map f))
    (hfuture : ∀ t ∈ h.redoStack, ∀ e, R t e → R' t (e.map f)) :
    Mirrors whole R' id h (z.map f) :=
  ⟨m.past.map (fun _ => rfl) (fun _ => rfl) hpast,
    m.future.map (fun _ => rfl) (fun _ => rfl) hfuture⟩

/-- An undo takes one transaction and the entry it stands for to the other side. -/
lemma undo (m : Mirrors whole R key h z) (hown : z.past ≠ [] ∨ h.undoStack = []) :
    (h.undoStack = [] ∧ z.past = []) ∨
      ∃ t ts e es, h.undoStack = t :: ts ∧ z.past = e :: es ∧ R t e ∧ key e.after = key z.now ∧
        Mirrors whole R key { h with undoStack := ts, redoStack := t :: h.redoStack } z.back := by
  rcases m.past.uncons hown with hnone | ⟨t, ts, e, es, hts, hes, ht, hk, hl⟩
  · exact .inl hnone
  · refine .inr ⟨t, ts, e, es, hts, hes, ht, hk, ?_⟩
    have hfuture := Linked.cons ht rfl (hk ▸ m.future)
    rw [back_of_cons hes]
    exact ⟨hl, hfuture⟩

/-- A redo takes one transaction and the entry it stands for to the other side. -/
lemma redo (m : Mirrors whole R key h z) (hown : z.future ≠ [] ∨ h.redoStack = []) :
    (h.redoStack = [] ∧ z.future = []) ∨
      ∃ t ts e es, h.redoStack = t :: ts ∧ z.future = e :: es ∧ R t e ∧ key e.before = key z.now ∧
        Mirrors whole R key { h with undoStack := t :: h.undoStack, redoStack := ts } z.forth := by
  rcases m.future.uncons hown with hnone | ⟨t, ts, e, es, hts, hes, ht, hk, hl⟩
  · exact .inl hnone
  · refine .inr ⟨t, ts, e, es, hts, hes, ht, hk, ?_⟩
    have hpast := Linked.cons ht rfl (hk ▸ m.past)
    rw [forth_of_cons hes]
    exact ⟨hpast, hl⟩

/-- An edit adds at most one transaction, and the entry it stands for. -/
lemma note {ed ed' : Editor} {idle changed : σ} (m : Mirrors whole R key ed.history z)
    (hlimit : ed.Limited) (hedited : ed.Edited ed') (hidle : key idle = key z.now)
    (heffective : ∀ cs, Trail cs ed.buffer.cells ed'.buffer.cells →
      R ⟨cs, ed.caret, ed'.caret, ed.options.comments⟩ ⟨z.now, changed⟩) :
    Mirrors whole R key ed'.history (z.note ed ed' idle changed) := by
  rw [Zipper.note]
  cases hedited with
  | refused =>
    rw [if_pos rfl]
    exact m.move hidle
  | idle =>
    rw [if_pos rfl]
    obtain ⟨hpast, hfuture⟩ := m.move hidle
    exact ⟨hpast, hfuture⟩
  | effective _ htrail hcount =>
    rw [if_neg (Nat.ne_of_gt hcount), ← hlimit]
    exact m.push (heffective _ htrail)

end Mirrors
end Zipper
end MetaPostEditor
