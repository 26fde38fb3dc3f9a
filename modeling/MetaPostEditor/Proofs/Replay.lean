import MetaPostEditor.Proofs.Splices

/-!
# Replaying changes

A list of changes is a *trail* from cells to cells when each change fits where it is made
(`Trail`).  Trails can be walked back, and changes without effect can be left out of them, so what
the history records of an edit is a trail too (`Buffer.Steps.trail`, `Trail.effective`).

A trail that leads from `x` to `y` can be replayed on any buffer with the text of `x`, whatever its
tags are, and leads to the text of `y`.  On a buffer with the cells `x` themselves it leads to the
cells `y` (`Buffer.performAll_of_trail`).
-/

namespace MetaPostEditor

variable {x y z : List Cell} {c : Change} {cs ds : List Change}

/-! ## Trails -/

/-- The change fits into the cells `x` and makes `y` of them. -/
def Change.Leads (c : Change) (x y : List Cell) : Prop :=
  ∃ u v, c.start = u.length ∧ x = u ++ c.removed ++ v ∧ y = u ++ c.inserted ++ v

lemma Change.Leads.inverse (h : c.Leads x y) : c.inverse.Leads y x := by
  obtain ⟨u, v, hstart, hx, hy⟩ := h
  exact ⟨u, v, hstart, hy, hx⟩

lemma Change.Leads.eq_of_isNoop (h : c.Leads x y) (hnoop : c.isNoop = true) : x = y := by
  obtain ⟨u, v, -, hx, hy⟩ := h
  have hsame : c.removed = c.inserted := by simpa [Change.isNoop] using hnoop
  rw [hx, hy, hsame]

/-- The changes, made one after the other, lead from the cells `x` to the cells `y`. -/
inductive Trail : List Change → List Cell → List Cell → Prop
  | nil (x : List Cell) : Trail [] x x
  | cons {c : Change} {cs : List Change} {x y z : List Cell} (h : c.Leads x y) (h' : Trail cs y z) :
      Trail (c :: cs) x z

lemma Trail.append (h : Trail cs x y) (h' : Trail ds y z) : Trail (cs ++ ds) x z := by
  induction h with
  | nil => exact h'
  | cons hc _ ih => exact .cons hc (ih h')

/-- A trail is walked back by taking back its changes, the last one first. -/
lemma Trail.reverse (h : Trail cs x y) : Trail (cs.reverse.map Change.inverse) y x := by
  induction h with
  | nil => exact .nil _
  | cons hc _ ih =>
    rw [List.reverse_cons, List.map_append]
    exact ih.append (.cons hc.inverse (.nil _))

/-- The changes that have an effect. -/
def effective (cs : List Change) : List Change :=
  cs.filter fun c => !c.isNoop

lemma Trail.effective (h : Trail cs x y) : Trail (effective cs) x y := by
  induction h with
  | nil => exact .nil _
  | @cons c cs x y z hc _ ih =>
    rw [MetaPostEditor.effective, List.filter_cons]
    cases hnoop : c.isNoop with
    | true =>
      rw [hc.eq_of_isNoop hnoop]
      exact ih
    | false => exact .cons hc ih

namespace Buffer

variable {b b' : Buffer}

lemma leads_splice {start stop : Nat} (hstart : start ≤ stop) (hstop : stop ≤ b.length)
    (cells : List Cell) :
    (b.splice start stop cells).2.Leads b.cells (b.splice start stop cells).1.cells := by
  have hin : stop ≤ b.cells.length := hstop
  refine ⟨b.cells.take start, b.cells.drop stop, ?_, ?_, ?_⟩
  · rw [splice_snd, List.length_take_of_le (by omega)]
  · have htake : b.cells.take stop = b.cells.take start ++ b.cellsIn start stop := by
      rw [cellsIn, ← List.take_append_drop start (b.cells.take stop), List.take_take,
        Nat.min_eq_left hstart, List.drop_left' (List.length_take_of_le (by omega))]
    rw [splice_snd, ← htake, List.take_append_drop]
  · rw [splice_snd, cells_splice b cells hstart]

/-- The changes of an edit are a trail. -/
lemma Steps.trail (h : b.Steps cs b') : Trail cs b.cells b'.cells := by
  induction h with
  | nil => exact .nil _
  | cons hstart hstop _ ih => exact .cons (leads_splice hstart hstop _) ih

/-- The revision counts the changes that have an effect. -/
lemma Steps.revision (h : b.Steps cs b') :
    b'.revision = b.revision + (effective cs).length := by
  induction h with
  | nil => rfl
  | @cons b b' start stop cells cs _ _ _ ih =>
    rw [ih, effective, effective, List.filter_cons, splice_fst]
    cases (b.splice start stop cells).2.isNoop with
    | true => rfl
    | false =>
      simp only [Bool.false_eq_true, if_false, Bool.not_false, if_true, List.length_cons]
      omega

/-- Changes without effect leave no trace. -/
lemma Steps.eq_of_effective (h : b.Steps cs b') (hnone : effective cs = []) : b' = b := by
  induction h with
  | nil => rfl
  | @cons b b' start stop cells cs _ _ _ ih =>
    rw [effective, List.filter_cons] at hnone
    rw [splice_fst] at ih
    cases hnoop : (b.splice start stop cells).2.isNoop with
    | true =>
      rw [hnoop] at hnone ih
      exact ih hnone
    | false =>
      rw [hnoop] at hnone
      exact absurd hnone (List.cons_ne_nil _ _)

/-! ## Replaying -/

/-- A change can be made again wherever the text is the one it was made on. -/
lemma perform_of_leads (h : c.Leads x y) (hb : b.text = textOf x) :
    ∃ b', b.perform c = .ok b' ∧ b'.text = textOf y ∧ (b.cells = x → b'.cells = y) := by
  obtain ⟨u, v, hstart, hx, hy⟩ := h
  have hlen : c.start + c.removed.length ≤ b.length := by
    rw [← length_text, hb, length_textOf, hx, hstart]
    simp only [List.length_append]
    omega
  have hcells := cells_splice b c.inserted (Nat.le_add_right c.start c.removed.length)
  refine ⟨(b.splice c.start (c.start + c.removed.length) c.inserted).1, ?_, ?_, fun hbx => ?_⟩
  · rw [perform, checkRange_eq_ok (Nat.le_add_right _ _) hlen]
    rfl
  · -- the tags may differ from those of `x`, so the pieces are found by the text alone
    have htext : textOf b.cells = textOf u ++ textOf c.removed ++ textOf v := by
      rw [← text_eq, hb, hx, textOf_append, textOf_append]
    rw [text_eq, hcells, hy, textOf_append, textOf_append, textOf_take, textOf_drop, htext,
      textOf_append, textOf_append, hstart, ← length_textOf u, ← length_textOf c.removed,
      List.append_assoc (textOf u), List.take_left, ← List.append_assoc (textOf u),
      List.drop_left' (by rw [List.length_append])]
  · have hsplit : b.cells = u ++ c.removed ++ v := by rw [hbx, hx]
    rw [hstart, cells_splice_split hsplit, hy]

/-- A trail can be replayed wherever the text is the one it starts from.  If the tags are those it
starts from as well, it leads to the tags where it ends. -/
lemma performAll_of_trail (h : Trail cs x y) (hb : b.text = textOf x) :
    ∃ b', b.performAll cs = (.ok (), b') ∧ b'.text = textOf y ∧ (b.cells = x → b'.cells = y) := by
  induction h generalizing b with
  | nil => exact ⟨b, rfl, hb, id⟩
  | cons hc _ ih =>
    obtain ⟨b₁, hperform, htext, hcells⟩ := perform_of_leads hc hb
    obtain ⟨b₂, hperformAll, htext', hcells'⟩ := ih htext
    refine ⟨b₂, ?_, htext', fun hbx => hcells' (hcells hbx)⟩
    rw [performAll, hperform]
    exact hperformAll

end Buffer
end MetaPostEditor
