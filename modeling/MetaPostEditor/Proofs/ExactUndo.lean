import MetaPostEditor.Proofs.LinearHistory
import Mathlib.Logic.Function.Iterate

/-!
# Undo and redo bring back the tags

The tags of an editor need not be those of a scan of its text: an edit scans only a part of it.
Undo and redo scan nothing as long as comments are shown as before, so the tags come back whatever
they were.  The main result, `Editor.undo_redo_exact`, says this of every continuation of a run in
which undo and redo do not reach back behind its beginning: each undo brings back the styled text as
it was before the edit that it takes back, and each redo as it was after the edit.  In particular
`n` edits, `n` undos and `n` redos go to and fro on one line of styled texts (`Zipper.line`).
-/

namespace MetaPostEditor

/-! ## The line of a zipper -/

namespace Zipper

variable {σ : Type} {z : Zipper σ} {e : Entry σ} {es : List (Entry σ)}

/-- All states on which the zipper can stand, the oldest first. -/
def line (z : Zipper σ) : List σ :=
  (z.past.map (·.before)).reverse ++ z.now :: z.future.map (·.after)

lemma line_start (s : σ) : (start s).line = [s] := rfl

lemma getElem?_line (z : Zipper σ) : z.line[z.past.length]? = some z.now := by
  rw [line, List.getElem?_append_right (by simp)]
  simp

lemma length_line (z : Zipper σ) : z.line.length = z.past.length + z.future.length + 1 := by
  rw [line]
  simp
  omega

lemma line_back (hpast : z.past = e :: es) (hjoin : e.after = z.now) : z.back.line = z.line := by
  rw [line, line, back_of_cons hpast, hpast]
  simp [hjoin]

lemma line_forth (hfuture : z.future = e :: es) (hjoin : e.before = z.now) :
    z.forth.line = z.line := by
  rw [line, line, forth_of_cons hfuture, hfuture]
  simp [hjoin]

/-- A new entry for which there is room makes the line longer, if nothing has been taken back. -/
lemma line_push {limit : Nat} (hfuture : z.future = []) (hroom : z.past.length < limit) (s : σ) :
    (z.push limit s).line = z.line ++ [s] := by
  rw [line, line, push, hfuture, List.take_of_length_le hroom]
  simp

lemma length_past_push {limit : Nat} (hroom : z.past.length < limit) (s : σ) :
    (z.push limit s).past.length = z.past.length + 1 := by
  rw [push, List.take_of_length_le hroom, List.length_cons]

end Zipper

/-! ## Continuations of a run -/

/-- The changes were made in the given mode and lead from cells to cells. -/
def Transaction.Leads (comments : Bool) (t : Transaction) (e : Entry (List Cell)) : Prop :=
  t.comments = comments ∧ Trail t.changes e.before e.after

namespace Editor

variable {ed ed₀ : Editor} {z : Zipper (List Cell)}

/-- The editor comes from `ed₀` by edits, undos, redos, and options set that do not change whether
comments are shown.  The zipper beside it holds the edits that were made since `ed₀`, and undo and
redo do not touch others. -/
inductive Continues (ed₀ : Editor) : Editor → Zipper (List Cell) → Prop
  | start : Continues ed₀ ed₀ (.start ed₀.buffer.cells)
  | edit {ed : Editor} {z : Zipper (List Cell)} (h : Continues ed₀ ed z) (e : Edit) :
      Continues ed₀ (ed.after e) (z.note ed (ed.after e) z.now (ed.after e).buffer.cells)
  | undo {ed : Editor} {z : Zipper (List Cell)} (h : Continues ed₀ ed z)
      (hown : z.past ≠ [] ∨ ed.history.canUndo = false) : Continues ed₀ ed.undo.2 z.back
  | redo {ed : Editor} {z : Zipper (List Cell)} (h : Continues ed₀ ed z)
      (hown : z.future ≠ [] ∨ ed.history.canRedo = false) : Continues ed₀ ed.redo.2 z.forth
  | markSaved {ed : Editor} {z : Zipper (List Cell)} (h : Continues ed₀ ed z) :
      Continues ed₀ ed.markSaved z
  | set {ed : Editor} {z : Zipper (List Cell)} (h : Continues ed₀ ed z) (args : String)
      (hcomments : (ed.set args).2.options.comments = ed.options.comments) :
      Continues ed₀ (ed.set args).2
        (z.relimit ed.options.undolevels (ed.set args).2.options.undolevels)

/-- The cells are those on which the zipper stands, and the history mirrors it as far as it goes. -/
structure Exact (ed : Editor) (z : Zipper (List Cell)) : Prop where
  now : z.now = ed.buffer.cells
  limited : ed.Limited
  mirrors : z.Mirrors False (Transaction.Leads ed.options.comments) id ed.history

namespace Exact

lemma after (h : ed.Exact z) (e : Edit) :
    (ed.after e).Exact (z.note ed (ed.after e) z.now (ed.after e).buffer.cells) := by
  have hedited := ed.edited_after e
  refine ⟨z.now_note hedited fun hsame => ?_, h.limited.after e, ?_⟩
  · rw [h.now, hsame]
  · rw [hedited.options]
    refine h.mirrors.note h.limited hedited rfl fun cs htrail => ?_
    rw [h.now]
    exact ⟨rfl, htrail⟩

lemma set (h : ed.Exact z) {args : String}
    (hcomments : (ed.set args).2.options.comments = ed.options.comments) :
    (ed.set args).2.Exact
      (z.relimit ed.options.undolevels (ed.set args).2.options.undolevels) := by
  have hlimited := h.limited.set args
  obtain ⟨b, hb, -, hsame, -⟩ := ed.set_spec args
  rw [hb] at hlimited hcomments ⊢
  refine ⟨?_, hlimited, ?_⟩
  · rw [Zipper.now_relimit, h.now, hsame hcomments]
  · rw [hcomments]
    exact h.mirrors.relimit _ _

/-- Tags that were made in the mode of the editor come back as they were. -/
lemma replayed {r : Restored} {hist : History} {x y : List Cell}
    {outcome : Except EditError (Option Nat) × Editor} {z' : Zipper (List Cell)} (h : ed.Exact z)
    (hreplayed : ed.Replayed r hist x y outcome) (hmode : r.comments = ed.options.comments)
    (hx : ed.buffer.cells = x) (hlimit : hist.limit = ed.history.limit) (hnow : z'.now = y)
    (hmirrors : z'.Mirrors False (Transaction.Leads ed.options.comments) id hist) :
    (∃ caret, outcome.1 = .ok (some caret)) ∧ outcome.2.buffer.cells = y ∧ outcome.2.Exact z' := by
  obtain ⟨b, rfl, -, hsame, -⟩ := hreplayed
  have hcells := hsame hmode hx
  exact ⟨⟨_, rfl⟩, hcells, hnow.trans hcells.symm, hlimit.trans h.limited, hmirrors⟩

/-- An undo of an edit that the zipper holds. -/
lemma undo (h : ed.Exact z) {e : Entry (List Cell)} {past : List (Entry (List Cell))}
    (hpast : z.past = e :: past) :
    e.after = z.now ∧ (∃ caret, ed.undo.1 = .ok (some caret)) ∧
      ed.undo.2.buffer.cells = e.before ∧ ed.undo.2.Exact z.back := by
  have hown : z.past ≠ [] := by simp [hpast]
  rcases h.mirrors.undo (.inl hown) with ⟨-, hnone⟩ | ⟨t, ts, e', es, hts, hes, ht, hk, hmirrors⟩
  · exact absurd hnone hown
  · obtain ⟨rfl, rfl⟩ : e = e' ∧ past = es := by simpa [hpast] using hes
    have hx : ed.buffer.cells = e.after := h.now.symm.trans hk.symm
    have hreplayed := undo_of_cons hts ht.2 (by rw [text, Buffer.text_eq, hx])
    exact ⟨hk, h.replayed hreplayed ht.1 hx rfl (by rw [Zipper.back_of_cons hpast]) hmirrors⟩

/-- A redo of an edit that the zipper holds. -/
lemma redo (h : ed.Exact z) {e : Entry (List Cell)} {future : List (Entry (List Cell))}
    (hfuture : z.future = e :: future) :
    e.before = z.now ∧ (∃ caret, ed.redo.1 = .ok (some caret)) ∧
      ed.redo.2.buffer.cells = e.after ∧ ed.redo.2.Exact z.forth := by
  have hown : z.future ≠ [] := by simp [hfuture]
  rcases h.mirrors.redo (.inl hown) with ⟨-, hnone⟩ | ⟨t, ts, e', es, hts, hes, ht, hk, hmirrors⟩
  · exact absurd hnone hown
  · obtain ⟨rfl, rfl⟩ : e = e' ∧ future = es := by simpa [hfuture] using hes
    have hx : ed.buffer.cells = e.before := h.now.symm.trans hk.symm
    have hreplayed := redo_of_cons hts ht.2 (by rw [text, Buffer.text_eq, hx])
    exact ⟨hk, h.replayed hreplayed ht.1 hx rfl (by rw [Zipper.forth_of_cons hfuture]) hmirrors⟩

end Exact

lemma Continues.exact (h : Continues ed₀ ed z) (hlimited : ed₀.Limited) : ed.Exact z := by
  induction h with
  | start => exact ⟨rfl, hlimited, Zipper.Mirrors.start False.elim _⟩
  | edit _ e ih => exact ih.after e
  | @undo ed z _ hown ih =>
    cases hpast : z.past with
    | cons e past => exact (ih.undo hpast).2.2.2
    | nil =>
      -- older transactions may be left, but then the undo was not allowed
      have hnone : ed.history.undoStack = [] := by simpa [hpast, History.canUndo] using hown
      rw [undo_of_nil hnone, Zipper.back_of_nil hpast]
      exact ih
  | @redo ed z _ hown ih =>
    cases hfuture : z.future with
    | cons e future => exact (ih.redo hfuture).2.2.2
    | nil =>
      have hnone : ed.history.redoStack = [] := by simpa [hfuture, History.canRedo] using hown
      rw [redo_of_nil hnone, Zipper.forth_of_nil hfuture]
      exact ih
  | markSaved _ ih => exact ⟨ih.now, ih.limited, ih.mirrors⟩
  | set _ _ hcomments ih => exact ih.set hcomments

/-! ## To and fro -/

/-- Each of the edits, made one after the other, has an effect. -/
def AllEffective : Editor → List Edit → Prop
  | _, [] => True
  | ed, e :: es => (ed.after e).buffer.revision ≠ ed.buffer.revision ∧ AllEffective (ed.after e) es

namespace Exact

/-- On a line of the states after edits, the place of the zipper tells how many edits were made. -/
lemma cells_of_line {es : List Edit} {i : Nat} (h : ed.Exact z)
    (hline : z.line = (es.scanl Editor.after ed₀).map (·.buffer.cells)) (hi : z.past.length = i)
    (hle : i ≤ es.length) :
    ed.buffer.cells = ((es.take i).foldl Editor.after ed₀).buffer.cells := by
  have hnow := z.getElem?_line
  rw [hi, hline, List.getElem?_map, List.getElem?_scanl, if_pos hle, h.now] at hnow
  exact (Option.some.inj hnow).symm

/-- Edits with an effect for which there is room make the line longer. -/
lemma foldl_after {es : List Edit} (h : ed.Exact z) (hfuture : z.future = [])
    (heffective : AllEffective ed es)
    (hroom : z.past.length + es.length ≤ ed.options.undolevels.toNat) :
    ∃ z', (es.foldl Editor.after ed).Exact z' ∧ z'.past.length = z.past.length + es.length ∧
      z'.line = z.line ++ (es.scanl Editor.after ed).tail.map (·.buffer.cells) := by
  induction es generalizing ed z with
  | nil => exact ⟨z, h, rfl, by simp⟩
  | cons e es ih =>
    rw [List.length_cons] at hroom
    have hnote : z.note ed (ed.after e) z.now (ed.after e).buffer.cells =
        z.push ed.options.undolevels.toNat (ed.after e).buffer.cells := if_neg heffective.1
    have hafter := h.after e
    rw [hnote] at hafter
    have hroom' : z.past.length < ed.options.undolevels.toNat := by omega
    have hline := Zipper.line_push hfuture hroom' (ed.after e).buffer.cells
    have hlength := Zipper.length_past_push hroom' (ed.after e).buffer.cells
    obtain ⟨z', hexact, hlength', hline'⟩ := ih hafter rfl heffective.2 (by
      rw [hlength, (ed.edited_after e).options]
      omega)
    refine ⟨z', hexact, ?_, ?_⟩
    · rw [hlength', hlength, List.length_cons]
      omega
    · rw [hline', hline, List.scanl_cons, List.tail_cons]
      cases es <;> simp

/-- Steps that stay on the line, as many as the zipper has room for. -/
lemma iterate {f : Editor → Editor} {g : Zipper (List Cell) → Zipper (List Cell)}
    {m : Zipper (List Cell) → Nat}
    (h : ed.Exact z)
    (hstep : ∀ {ed z}, ed.Exact z → 0 < m z →
      (f ed).Exact (g z) ∧ (g z).line = z.line ∧ m (g z) + 1 = m z)
    {k : Nat} (hk : k ≤ m z) :
    (f^[k] ed).Exact (g^[k] z) ∧ (g^[k] z).line = z.line ∧ m (g^[k] z) + k = m z := by
  induction k with
  | zero => exact ⟨h, rfl, rfl⟩
  | succ k ih =>
    obtain ⟨hexact, hline, hm⟩ := ih (by omega)
    obtain ⟨hexact', hline', hm'⟩ := hstep hexact (by omega)
    rw [Function.iterate_succ_apply', Function.iterate_succ_apply']
    exact ⟨hexact', hline'.trans hline, by omega⟩

lemma undo_step (h : ed.Exact z) (hpos : 0 < z.past.length) :
    ed.undo.2.Exact z.back ∧ z.back.line = z.line ∧ z.back.past.length + 1 = z.past.length := by
  obtain ⟨e, es, hpast⟩ := List.exists_cons_of_length_pos hpos
  obtain ⟨hjoin, -, -, hundo⟩ := h.undo hpast
  refine ⟨hundo, Zipper.line_back hpast hjoin, ?_⟩
  rw [Zipper.back_of_cons hpast, hpast, List.length_cons]

lemma redo_step (h : ed.Exact z) (hpos : 0 < z.future.length) :
    ed.redo.2.Exact z.forth ∧ z.forth.line = z.line ∧
      z.forth.future.length + 1 = z.future.length := by
  obtain ⟨e, es, hfuture⟩ := List.exists_cons_of_length_pos hpos
  obtain ⟨hjoin, -, -, hredo⟩ := h.redo hfuture
  refine ⟨hredo, Zipper.line_forth hfuture hjoin, ?_⟩
  rw [Zipper.forth_of_cons hfuture, hfuture, List.length_cons]

end Exact

/-- **Undo and redo bring back the styled text.**  In every continuation of a run that undo and redo
do not leave, an undo brings back each character and tag as it was before the edit that it takes
back, and a redo as it was after the edit that it makes again.  So if edits with an effect, not more
than can be undone, are all taken back and then all made again, the styled texts on the way are
those after the edits. -/
theorem undo_redo_exact (hreach : ed₀.Reachable) :
    (∀ ed z, Continues ed₀ ed z →
      ed.buffer.cells = z.now ∧
      (∀ e past, z.past = e :: past →
        (∃ caret, ed.undo.1 = .ok (some caret)) ∧ ed.undo.2.buffer.cells = e.before) ∧
      (∀ e future, z.future = e :: future →
        (∃ caret, ed.redo.1 = .ok (some caret)) ∧ ed.redo.2.buffer.cells = e.after)) ∧
    ∀ es : List Edit, es.length ≤ ed₀.options.undolevels.toNat → AllEffective ed₀ es →
      ∀ k ≤ es.length,
        ((fun ed => ed.undo.2)^[k] (es.foldl after ed₀)).buffer.cells =
          ((es.take (es.length - k)).foldl after ed₀).buffer.cells ∧
        ((fun ed => ed.redo.2)^[k]
            ((fun ed => ed.undo.2)^[es.length] (es.foldl after ed₀))).buffer.cells =
          ((es.take k).foldl after ed₀).buffer.cells := by
  have hlimited := hreach.limited
  constructor
  · intro ed z hcontinues
    have h := hcontinues.exact hlimited
    refine ⟨h.now.symm, fun e past hpast => ?_, fun e future hfuture => ?_⟩
    · obtain ⟨-, hsome, hcells, -⟩ := h.undo hpast
      exact ⟨hsome, hcells⟩
    · obtain ⟨-, hsome, hcells, -⟩ := h.redo hfuture
      exact ⟨hsome, hcells⟩
  · intro es hroom heffective k hk
    have hstart : ed₀.Exact (.start ed₀.buffer.cells) := Continues.start.exact hlimited
    obtain ⟨z, hz, hpast, hline⟩ :=
      hstart.foldl_after rfl heffective (by simpa [Zipper.start] using hroom)
    have hpast' : z.past.length = es.length := hpast.trans (Nat.zero_add _)
    have hline' : z.line = (es.scanl after ed₀).map (·.buffer.cells) := by
      rw [hline, Zipper.line_start]
      cases es <;> simp
    -- undo and redo stay on this line, so only the place on it has to be counted
    constructor
    · obtain ⟨hz₁, hline₁, hpast₁⟩ := hz.iterate Exact.undo_step (hpast' ▸ hk)
      exact hz₁.cells_of_line (hline₁.trans hline') (by omega) (by omega)
    · obtain ⟨hz₁, hline₁, hpast₁⟩ := hz.iterate Exact.undo_step hpast'.ge
      have hlength₁ := congrArg List.length hline₁
      rw [Zipper.length_line, Zipper.length_line] at hlength₁
      obtain ⟨hz₂, hline₂, hfuture₂⟩ := hz₁.iterate Exact.redo_step (k := k) (by omega)
      have hlength₂ := congrArg List.length hline₂
      rw [Zipper.length_line, Zipper.length_line] at hlength₂
      exact hz₂.cells_of_line (hline₂.trans (hline₁.trans hline')) (by omega) hk

/-- A quote opens a string that reaches over the line break, where the tags are no longer those of a
scan. -/
theorem undo_redo_exact_stale_line :
    (ofText ['i', 'f', '\n', 'f', 'i']).Reachable ∧
      ¬ ((ofText ['i', 'f', '\n', 'f', 'i']).after ⟨0, 0, ['"']⟩).Fresh ∧
      AllEffective (ofText ['i', 'f', '\n', 'f', 'i']) [⟨0, 0, ['"']⟩, ⟨3, 1, [' ']⟩] ∧
      ((fun ed => ed.redo.2)^[1] ((fun ed => ed.undo.2)^[2]
          ([⟨0, 0, ['"']⟩, ⟨3, 1, [' ']⟩].foldl after
            (ofText ['i', 'f', '\n', 'f', 'i'])))).buffer.cells =
        ((ofText ['i', 'f', '\n', 'f', 'i']).after ⟨0, 0, ['"']⟩).buffer.cells := by
  have hreach : (ofText ['i', 'f', '\n', 'f', 'i']).Reachable := ⟨_, [], .ofText _, rfl⟩
  have heffective :
      AllEffective (ofText ['i', 'f', '\n', 'f', 'i']) [⟨0, 0, ['"']⟩, ⟨3, 1, [' ']⟩] :=
    ⟨by decide, by decide, trivial⟩
  have hall := (undo_redo_exact hreach).2 _ (by decide) heffective 1 (by decide)
  exact ⟨hreach, by decide, heffective, hall.2⟩

end Editor
end MetaPostEditor
