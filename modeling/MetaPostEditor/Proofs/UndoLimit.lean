import MetaPostEditor.Proofs.Snapshots
import Mathlib.Logic.Function.Iterate

/-!
# How many edits can be undone

A history is to hold no more transactions for undo than its limit says.  The limit is enforced when
a transaction is committed and when the limit is set, but not when a transaction is made again.  For
a redo there is room as long as what can be undone and what can be redone together keep to the
limit, since an undo frees the place that the redo needs.  But setting a lower limit cuts down only
what can be undone.  If something can be redone then, the redos go beyond the limit.

The main result, `History.undo_within_limit`, says exactly when this happens, and that it does not
happen if the limit is never set to less than what is recorded while something can be redone.  It
says the same of an editor, where the limit is the number of undos that its options allow.
-/

namespace MetaPostEditor

namespace History

/-- What can be done with a history.  Undo and redo may meet any buffer. -/
inductive Operation where
  | begin (caret : Nat) (comments : Bool)
  | record (c : Change)
  | commit (caret : Nat)
  | undo (b : Buffer)
  | redo (b : Buffer)
  | setLimit (limit : Nat)

/-- The history after an operation, whether the operation fails or not. -/
def perform (h : History) : Operation → History
  | .begin caret comments => h.begin caret comments
  | .record c => h.record c
  | .commit caret => h.commit caret
  | .undo b => (h.undo b).2.1
  | .redo b => (h.redo b).2.1
  | .setLimit limit => h.setLimit limit

/-- The history after operations. -/
def run (h : History) (ops : List Operation) : History :=
  ops.foldl perform h

/-- There are not more transactions to undo than the limit says. -/
def Within (h : History) : Prop :=
  h.undoStack.length ≤ h.limit

/-- There are not more transactions at all than the limit says. -/
def Roomy (h : History) : Prop :=
  h.undoStack.length + h.redoStack.length ≤ h.limit

instance (h : History) : Decidable h.Within :=
  inferInstanceAs (Decidable (_ ≤ _))

instance (h : History) : Decidable h.Roomy :=
  inferInstanceAs (Decidable (_ ≤ _))

/-- The operation is a redo that succeeds although there is no room for another undo. -/
def Overfills (h : History) : Operation → Prop
  | .redo b => h.limit ≤ h.undoStack.length ∧ ∃ r, (h.redo b).1 = .ok (some r)
  | _ => False

/-- The operation does not set the limit to less than what is recorded while something can be
redone. -/
def KeepsRoom (h : History) : Operation → Prop
  | .setLimit limit =>
    h.redoStack = [] ∨ h.undoStack.length + h.redoStack.length ≤ limit
  | _ => True

variable {h : History}

/-! ## What the operations do to the stacks -/

lemma record_stacks (h : History) (c : Change) :
    (h.record c).undoStack = h.undoStack ∧ (h.record c).redoStack = h.redoStack ∧
      (h.record c).limit = h.limit := by
  rw [record]
  split <;> exact ⟨rfl, rfl, rfl⟩

/-- A transaction that is committed is the newest, or there was none with changes. -/
lemma commit_cases (h : History) (caret : Nat) :
    ((h.commit caret).undoStack = h.undoStack ∧ (h.commit caret).redoStack = h.redoStack ∧
        (h.commit caret).limit = h.limit) ∨
      ∃ t, h.commit caret = h.push t := by
  rw [commit]
  split
  · exact .inl ⟨rfl, rfl, rfl⟩
  · split
    · exact .inl ⟨rfl, rfl, rfl⟩
    · exact .inr ⟨_, rfl⟩

/-- An undo takes one transaction away, and only if it succeeds can that be redone. -/
lemma undo_cases (h : History) (b : Buffer) :
    (h.undoStack = [] ∧ (h.undo b).2.1 = h) ∨
      ∃ t ts, h.undoStack = t :: ts ∧
        ((h.undo b).2.1 = { h with undoStack := ts, redoStack := t :: h.redoStack } ∨
          (h.undo b).2.1 = { h with undoStack := ts }) := by
  rw [undo]
  split
  · next hnil => exact .inl ⟨hnil, rfl⟩
  · next t ts hcons =>
    refine .inr ⟨t, ts, hcons, ?_⟩
    split
    · exact .inl rfl
    · exact .inr rfl

/-- A redo brings one transaction back if it succeeds, and otherwise none. -/
lemma redo_cases (h : History) (b : Buffer) :
    (∃ t ts r, h.redoStack = t :: ts ∧ (h.redo b).1 = .ok (some r) ∧
        (h.redo b).2.1 = { h with undoStack := t :: h.undoStack, redoStack := ts }) ∨
      ((¬ ∃ r, (h.redo b).1 = .ok (some r)) ∧
        ∃ ts, ts.length ≤ h.redoStack.length ∧ (h.redo b).2.1 = { h with redoStack := ts }) := by
  rw [redo]
  split
  · next hnil => exact .inr ⟨by simp, [], Nat.zero_le _, by rw [← hnil]⟩
  · next t ts hcons =>
    split
    · exact .inl ⟨t, ts, _, hcons, rfl, rfl⟩
    · exact .inr ⟨by simp, ts, by rw [hcons, List.length_cons]; omega, rfl⟩

/-! ## One operation -/

lemma within_push (h : History) (t : Transaction) : (h.push t).Within :=
  List.length_take_le _ _

lemma roomy_push (h : History) (t : Transaction) : (h.push t).Roomy :=
  within_push h t

lemma Roomy.within (hroomy : h.Roomy) : h.Within := by
  rw [Roomy] at hroomy
  rw [Within]
  omega

lemma Roomy.of_stacks {h' : History} (hroomy : h.Roomy)
    (hstacks : h'.undoStack = h.undoStack ∧ h'.redoStack = h.redoStack ∧ h'.limit = h.limit) :
    h'.Roomy := by
  obtain ⟨hundo, hredo, hlimit⟩ := hstacks
  rwa [Roomy, hundo, hredo, hlimit]

lemma Within.of_stacks {h' : History} (hwithin : h.Within)
    (hstacks : h'.undoStack = h.undoStack ∧ h'.redoStack = h.redoStack ∧ h'.limit = h.limit) :
    h'.Within := by
  obtain ⟨hundo, -, hlimit⟩ := hstacks
  rwa [Within, hundo, hlimit]

/-- Only a redo can go beyond the limit. -/
lemma within_perform_iff (hwithin : h.Within) (op : Operation) :
    (h.perform op).Within ↔ ¬ h.Overfills op := by
  cases op with
  | begin caret comments => exact iff_of_true hwithin not_false
  | record c => exact iff_of_true (hwithin.of_stacks (h.record_stacks c)) not_false
  | commit caret =>
    refine iff_of_true ?_ not_false
    rw [perform]
    rcases h.commit_cases caret with hstacks | ⟨t, ht⟩
    · exact hwithin.of_stacks hstacks
    · rw [ht]
      exact h.within_push t
  | undo b =>
    refine iff_of_true ?_ not_false
    rw [perform]
    rw [Within] at hwithin
    rcases h.undo_cases b with ⟨-, hsame⟩ | ⟨t, ts, hts, hundo | hundo⟩
    · rwa [hsame]
    all_goals
      rw [hts, List.length_cons] at hwithin
      rw [hundo, Within]
      exact Nat.le_of_succ_le hwithin
  | redo b =>
    rw [perform, Overfills]
    rcases h.redo_cases b with ⟨t, ts, r, -, hr, hredo⟩ | ⟨hnone, ts, -, hredo⟩
    · rw [hredo, Within, List.length_cons]
      constructor
      · rintro hroom ⟨hfull, -⟩
        exact absurd (Nat.lt_of_lt_of_le (Nat.lt_succ_self _) hroom) (Nat.not_lt.2 hfull)
      · intro hnot
        by_contra hfull
        exact hnot ⟨Nat.lt_succ_iff.1 (Nat.not_le.1 hfull), r, hr⟩
    · rw [hredo]
      exact iff_of_true hwithin fun hover => hnone hover.2
  | setLimit limit => exact iff_of_true (List.length_take_le _ _) not_false

lemma Roomy.undo (hroomy : h.Roomy) (b : Buffer) : (h.undo b).2.1.Roomy := by
  rw [Roomy] at hroomy
  rcases h.undo_cases b with ⟨-, hsame⟩ | ⟨t, ts, hts, hundo | hundo⟩
  · rwa [hsame]
  all_goals
    rw [hts, List.length_cons] at hroomy
    rw [hundo, Roomy]
    simp only [List.length_cons]
    omega

lemma Roomy.redo (hroomy : h.Roomy) (b : Buffer) : (h.redo b).2.1.Roomy := by
  rw [Roomy] at hroomy
  rcases h.redo_cases b with ⟨t, ts, r, hts, -, hredo⟩ | ⟨-, ts, hle, hredo⟩
  · rw [hts, List.length_cons] at hroomy
    rw [hredo, Roomy]
    simp only [List.length_cons]
    omega
  · rw [hredo, Roomy]
    exact Nat.le_trans (Nat.add_le_add_left hle _) hroomy

lemma roomy_setLimit {limit : Nat}
    (hroom : h.redoStack = [] ∨ h.undoStack.length + h.redoStack.length ≤ limit) :
    (h.setLimit limit).Roomy := by
  rw [Roomy, setLimit, List.length_take]
  rcases hroom with hnone | hroom
  · rw [hnone, List.length_nil, Nat.add_zero]
    exact Nat.min_le_left _ _
  · exact Nat.le_trans (Nat.add_le_add_right (Nat.min_le_right _ _) _) hroom

/-- There is room for every redo, unless the limit is lowered in spite of it. -/
lemma Roomy.perform (hroomy : h.Roomy) {op : Operation} (hop : h.KeepsRoom op) :
    (h.perform op).Roomy := by
  cases op with
  | begin caret comments => exact hroomy
  | record c => exact hroomy.of_stacks (h.record_stacks c)
  | commit caret =>
    rw [History.perform]
    rcases h.commit_cases caret with hstacks | ⟨t, ht⟩
    · exact hroomy.of_stacks hstacks
    · rw [ht]
      exact h.roomy_push t
  | undo b => exact Roomy.undo hroomy b
  | redo b => exact Roomy.redo hroomy b
  | setLimit limit => exact roomy_setLimit hop

/-! ## Runs -/

lemma run_take_succ (h : History) {ops : List Operation} {n : Nat} {op : Operation}
    (hop : ops[n]? = some op) : h.run (ops.take (n + 1)) = (h.run (ops.take n)).perform op := by
  rw [run, run, List.take_add_one, hop, Option.toList_some, List.foldl_append, List.foldl_cons,
    List.foldl_nil]

/-- What a property needs of each operation holds in every state of a run. -/
lemma run_take_invariant {P : History → Prop} {ops : List Operation} (hstart : P h)
    (hstep : ∀ n op, ops[n]? = some op → P (h.run (ops.take n)) →
      P ((h.run (ops.take n)).perform op)) (n : Nat) : P (h.run (ops.take n)) := by
  induction n with
  | zero => exact hstart
  | succ n ih =>
    cases hop : ops[n]? with
    | none =>
      rw [List.take_add_one, hop, Option.toList_none, List.append_nil]
      exact ih
    | some op =>
      rw [run_take_succ h hop]
      exact hstep n op hop ih

end History

/-! ## Editors -/

namespace Editor

variable {ed : Editor}

/-- The operation does not set the number of undos to less than what is recorded while something can
be redone. -/
def KeepsRoom (ed : Editor) : Operation → Prop
  | .set args => ed.history.redoStack = [] ∨
      ed.history.undoStack.length + ed.history.redoStack.length ≤
        (ed.set args).2.options.undolevels.toNat
  | _ => True

instance (ed : Editor) : (op : Operation) → Decidable (ed.KeepsRoom op)
  | .set _ => inferInstanceAs (Decidable (_ ∨ _))
  | .edit _ | .load _ | .undo | .redo | .markSaved | .paste _ | .type _ =>
    inferInstanceAs (Decidable True)

lemma roomy_after (h : ed.history.Roomy) (e : Edit) : (ed.after e).history.Roomy := by
  have hedited := ed.edited_after e
  generalize ed.after e = ed' at hedited ⊢
  cases hedited with
  | refused => exact h
  | idle => exact h
  | effective => exact History.roomy_push _ _

lemma roomy_perform (h : ed.history.Roomy) {op : Operation} (hop : ed.KeepsRoom op) :
    (ed.perform op).history.Roomy := by
  have hkeeps : ∀ text, _ :=
    perform_of_after (P := fun ed => ed.history.Roomy) (fun _ e hed => roomy_after hed e) h
  cases op with
  | edit e => exact roomy_after h e
  | load text =>
    obtain ⟨b, hb, -⟩ := ed.load_spec text
    rw [perform, hb]
    exact Nat.zero_le _
  | set args =>
    rw [KeepsRoom] at hop
    obtain ⟨b, hb, -⟩ := ed.set_spec args
    rw [perform, hb]
    rw [hb] at hop
    change (ed.history.relimit _ _).Roomy
    rw [History.relimit]
    split
    · exact History.roomy_setLimit hop
    · exact h
  | undo =>
    rw [perform, undo, history_travel]
    exact History.Roomy.undo h _
  | redo =>
    rw [perform, redo, history_travel]
    exact History.Roomy.redo h _
  | markSaved => exact h
  | paste text => exact (hkeeps text).1
  | type text => exact (hkeeps text).2

lemma Initial.roomy (h : Initial ed) : ed.history.Roomy := by
  cases h with
  | empty options => exact Nat.zero_le _
  | ofText text =>
    obtain ⟨b, hb, -⟩ := (Editor.empty Options.default).load_spec text
    rw [Editor.ofText, hb]
    exact Nat.zero_le _

/-- An undo finds something to do as long as there are transactions, and takes one of them. -/
lemma Reachable.undo_cases (h : ed.Reachable) :
    (ed.history.undoStack = [] ∧ ed.undo.1 = .ok none) ∨
      ∃ t caret, ed.undo.1 = .ok (some caret) ∧
        ed.history.undoStack = t :: ed.undo.2.history.undoStack := by
  rcases h.undo_trail with hnone | ⟨t, ts, x, y, hts, htrail, htext⟩
  · rw [undo_of_nil hnone]
    exact .inl ⟨hnone, rfl⟩
  · obtain ⟨b, hb, -⟩ := undo_of_cons hts htrail htext
    rw [hb]
    exact .inr ⟨t, _, rfl, hts⟩

/-- The undos that find something to do are as many as there are transactions. -/
lemma Reachable.undos_iff (h : ed.Reachable) (n : Nat) :
    (∀ k < n, ∃ caret, ((fun ed => ed.undo.2)^[k] ed).undo.1 = .ok (some caret)) ↔
      n ≤ ed.history.undoStack.length := by
  induction n generalizing ed with
  | zero => simp
  | succ n ih =>
    have hrest := ih (h.perform .undo)
    rw [Editor.perform] at hrest
    simp only [Nat.forall_lt_succ_left, Function.iterate_zero, id, Function.iterate_succ_apply]
    rcases h.undo_cases with ⟨hnone, hundo⟩ | ⟨t, caret, hundo, hts⟩
    · simp [hnone, hundo]
    · simp [hundo, hts, hrest]

end Editor

namespace History

/-- **How many edits can be undone.**  In a history on which operations are made in any order, the
number of transactions that can be undone keeps to the limit in all states if and only if no redo
succeeds while that number has reached the limit.  It does so in particular if the limit is never
set to less than what is recorded while something can be redone.  As many undos of an editor in a
row find something to do as there are transactions, so not more than the options say if and only if
its history keeps to the limit, and it does so under the same condition. -/
theorem undo_within_limit (limit : Nat) (ops : List Operation) :
    ((∀ n, ((empty limit).run (ops.take n)).Within) ↔
      ∀ n op, ops[n]? = some op → ¬ ((empty limit).run (ops.take n)).Overfills op) ∧
    ((∀ n op, ops[n]? = some op → ((empty limit).run (ops.take n)).KeepsRoom op) →
      ∀ n, ((empty limit).run (ops.take n)).Within) ∧
    (∀ ed : Editor, ed.Reachable →
      ((∀ n, (∀ k < n, ∃ caret, ((fun ed => ed.undo.2)^[k] ed).undo.1 = .ok (some caret)) →
          n ≤ ed.options.undolevels.toNat) ↔
        ed.history.Within)) ∧
    ∀ (ed₀ : Editor) (edOps : List MetaPostEditor.Operation), Editor.Initial ed₀ →
      Editor.Along Editor.KeepsRoom ed₀ edOps → (ed₀.run edOps).history.Within := by
  refine ⟨⟨fun hwithin n op hop => ?_, fun hover => ?_⟩, fun hroom n => ?_, fun ed hreach => ?_, ?_⟩
  · rw [← within_perform_iff (hwithin n), ← run_take_succ _ hop]
    exact hwithin (n + 1)
  · exact run_take_invariant (Nat.zero_le _) fun n op hop hwithin =>
      (within_perform_iff hwithin op).2 (hover n op hop)
  · have hroomy : ((empty limit).run (ops.take n)).Roomy :=
      run_take_invariant (Nat.zero_le _)
        (fun n op hop h => Roomy.perform h (hroom n op hop)) n
    exact hroomy.within
  · have hlimit : ed.history.limit = ed.options.undolevels.toNat := hreach.limited
    simp only [hreach.undos_iff, Within, hlimit]
    exact ⟨fun hall => hall _ (Nat.le_refl _), fun hle n hn => Nat.le_trans hn hle⟩
  · intro ed₀ edOps hinit hops
    have hroomy : (ed₀.run edOps).history.Roomy :=
      Editor.run_invariant (P := fun ed => ed.history.Roomy)
        (fun _ _ h hop => Editor.roomy_perform h hop) hinit.roomy hops
    exact hroomy.within

/-- The limit is lowered while an undo can be redone for which there is still room, and once more
while nothing can be redone. -/
theorem undo_within_limit_lowered :
    Editor.Along Editor.KeepsRoom (Editor.empty Options.default)
        [.edit ⟨0, 0, ['a']⟩, .edit ⟨1, 0, ['b']⟩, .undo, .set "undolevels=2", .redo,
          .set "undolevels=1"] ∧
      ¬ ∀ k < 2, ∃ caret, ((fun ed => ed.undo.2)^[k] ((Editor.empty Options.default).run
          [.edit ⟨0, 0, ['a']⟩, .edit ⟨1, 0, ['b']⟩, .undo, .set "undolevels=2", .redo,
            .set "undolevels=1"])).undo.1 = .ok (some caret) := by
  have hops : Editor.Along Editor.KeepsRoom (Editor.empty Options.default)
      [.edit ⟨0, 0, ['a']⟩, .edit ⟨1, 0, ['b']⟩, .undo, .set "undolevels=2", .redo,
        .set "undolevels=1"] :=
    ⟨trivial, trivial, trivial, by decide, trivial, by decide, trivial⟩
  refine ⟨hops, fun hundos => ?_⟩
  obtain ⟨-, -, hundo, hwithin⟩ := undo_within_limit 0 []
  have hreach : ((Editor.empty Options.default).run
      [.edit ⟨0, 0, ['a']⟩, .edit ⟨1, 0, ['b']⟩, .undo, .set "undolevels=2", .redo,
        .set "undolevels=1"]).Reachable := ⟨_, _, .empty _, rfl⟩
  have hle := (hundo _ hreach).2 (hwithin _ _ (.empty _) hops) 2 hundos
  exact absurd hle (by decide)

/-- Two transactions are taken back, the limit is set to one, and both are made again.  The history
then holds two, and the editor undoes two edits although its options allow one. -/
theorem undo_beyond_limit :
    ¬ ((empty 2).run
        [.begin 0 false, .record ⟨0, [], [⟨'a', .normal⟩]⟩, .commit 1,
          .begin 1 false, .record ⟨1, [], [⟨'b', .normal⟩]⟩, .commit 2,
          .undo (Buffer.ofText ['a', 'b']), .undo (Buffer.ofText ['a']), .setLimit 1,
          .redo (Buffer.ofText []), .redo (Buffer.ofText ['a'])]).Within ∧
      ((Editor.empty Options.default).run
        [.edit ⟨0, 0, ['a']⟩, .edit ⟨1, 0, ['b']⟩, .undo, .undo, .set "undolevels=1", .redo,
          .redo]).options.undolevels = 1 ∧
      ((Editor.empty Options.default).run
        [.edit ⟨0, 0, ['a']⟩, .edit ⟨1, 0, ['b']⟩, .undo, .undo, .set "undolevels=1", .redo,
          .redo]).undo.1 = .ok (some 1) ∧
      ((Editor.empty Options.default).run
        [.edit ⟨0, 0, ['a']⟩, .edit ⟨1, 0, ['b']⟩, .undo, .undo, .set "undolevels=1", .redo,
          .redo, .undo]).undo.1 = .ok (some 0) := by
  refine ⟨by decide, by decide, by decide, by decide⟩

end History
end MetaPostEditor
