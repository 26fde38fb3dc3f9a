import MetaPostEditor.Editor
import MetaPostEditor.Proofs.Classification

/-!
# What changes do to a buffer

Every change of a buffer puts cells in the place of a range.  This file says what that does to a
buffer which is given as a sequence of pieces, and introduces `Buffer.Steps`, the relation between a
buffer, a list of changes and the buffer that these changes lead to.  All that an edit does to its
draft is such a list of changes (`Draft.Grows`), and what edits leave alone, count or make undone is
derived from this one relation.
-/

namespace MetaPostEditor

namespace Buffer

variable {b b' b'' : Buffer} {start stop : Nat}

lemma text_eq (b : Buffer) : b.text = textOf b.cells := rfl

lemma length_eq (b : Buffer) : b.length = b.cells.length := rfl

lemma checkRange_eq_ok (h : start ≤ stop) (h' : stop ≤ b.length) :
    b.checkRange start stop = .ok () := by
  rw [checkRange, if_pos ⟨h, h'⟩]

/-- Tokens from a scan are never refused. -/
lemma replace_tokenize (h : start ≤ stop) (h' : stop ≤ b.length) (comments : Bool)
    (s : Scanner.State) (text : List Char) :
    b.replace start stop (tokenize comments s text) =
      .ok (b.splice start stop (classify comments s text)) := by
  have hlen : text.length = (tagsOf (tokenize comments s text)).length := by simp
  rw [replace, ← tagsOf, flatMap_text_tokenize, replaceTagged, checkRange_eq_ok h h']
  simp only [bind, Except.bind, ← hlen, ne_eq, not_true_eq_false, if_false]
  rw [zipWith_tokenize]
  rfl

lemma remove_eq_ok (h : start ≤ stop) (h' : stop ≤ b.length) :
    b.remove start stop = .ok (b.splice start stop []) := by
  rw [remove, replaceTagged, checkRange_eq_ok h h']
  rfl

/-! ## A buffer in pieces -/

lemma cellsIn_split {x m y : List Cell} (h : b.cells = x ++ m ++ y) :
    b.cellsIn x.length (x.length + m.length) = m := by
  rw [cellsIn, h, List.take_left' (by simp), List.drop_left]

lemma cells_splice_split {x m y : List Cell} (h : b.cells = x ++ m ++ y) (cells : List Cell) :
    (b.splice x.length (x.length + m.length) cells).1.cells = x ++ cells ++ y := by
  rw [cells_splice b cells (Nat.le_add_right _ _), h, List.drop_left' (by simp),
    List.append_assoc x m y, List.take_left]

lemma splice_snd (b : Buffer) (start stop : Nat) (cells : List Cell) :
    (b.splice start stop cells).2 = ⟨start, b.cellsIn start stop, cells⟩ := by
  rw [splice]
  split <;> rfl

/-- A change without effect leaves the buffer as it was, and any other is counted. -/
lemma splice_fst (b : Buffer) (start stop : Nat) (cells : List Cell) :
    (b.splice start stop cells).1 =
      if (b.splice start stop cells).2.isNoop then b
      else ⟨b.cells.take start ++ cells ++ b.cells.drop stop, true, b.revision + 1⟩ := by
  rw [splice_snd, splice]
  split <;> rfl

/-! ## Changes one after the other -/

/-- The changes, made one after the other, lead from a buffer to another one. -/
inductive Steps : Buffer → List Change → Buffer → Prop
  | nil (b : Buffer) : Steps b [] b
  | cons {b b' : Buffer} {start stop : Nat} {cells : List Cell} {cs : List Change}
      (hstart : start ≤ stop) (hstop : stop ≤ b.length)
      (h : Steps (b.splice start stop cells).1 cs b') :
      Steps b ((b.splice start stop cells).2 :: cs) b'

lemma Steps.single (hstart : start ≤ stop) (hstop : stop ≤ b.length) (cells : List Cell) :
    Steps b [(b.splice start stop cells).2] (b.splice start stop cells).1 :=
  .cons hstart hstop (.nil _)

lemma Steps.append {cs ds : List Change} (h : Steps b cs b') (h' : Steps b' ds b'') :
    Steps b (cs ++ ds) b'' := by
  induction h with
  | nil => exact h'
  | cons hstart hstop _ ih => exact .cons hstart hstop (ih h')

end Buffer

namespace Draft

variable {d d' d'' : Draft}

/-- The second draft comes from the first by changes that are noted in it. -/
def Grows (d d' : Draft) : Prop :=
  ∃ cs, d'.changes = d.changes ++ cs ∧ d.buffer.Steps cs d'.buffer

lemma Grows.refl (d : Draft) : d.Grows d :=
  ⟨[], by simp, .nil _⟩

lemma Grows.trans (h : d.Grows d') (h' : d'.Grows d'') : d.Grows d'' := by
  obtain ⟨cs, hcs, hsteps⟩ := h
  obtain ⟨ds, hds, hsteps'⟩ := h'
  exact ⟨cs ++ ds, by rw [hds, hcs, List.append_assoc], hsteps.append hsteps'⟩

/-- The draft after cells have taken the place of a range. -/
def put (d : Draft) (start stop : Nat) (cells : List Cell) : Draft :=
  ⟨(d.buffer.splice start stop cells).1, d.changes ++ [(d.buffer.splice start stop cells).2]⟩

lemma grows_put {start stop : Nat} (hstart : start ≤ stop) (hstop : stop ≤ d.buffer.length)
    (cells : List Cell) : d.Grows (d.put start stop cells) :=
  ⟨_, rfl, Buffer.Steps.single hstart hstop cells⟩

lemma length_of_split {x m y : List Cell} (h : d.buffer.cells = x ++ m ++ y) :
    x.length + m.length ≤ d.buffer.length := by
  rw [Buffer.length_eq, h]
  simp only [List.length_append]
  omega

/-- A replacement by a scan that succeeds lies in the buffer and puts the scan there. -/
lemma put_of_replace {comments : Bool} {start stop : Nat} {s : Scanner.State} {text : List Char}
    (h : d.replace start stop (tokenize comments s text) = .ok d') :
    start ≤ stop ∧ stop ≤ d.buffer.length ∧ d' = d.put start stop (classify comments s text) := by
  by_cases hrange : start ≤ stop ∧ stop ≤ d.buffer.length
  · rw [replace, Buffer.replace_tokenize hrange.1 hrange.2] at h
    cases h
    exact ⟨hrange.1, hrange.2, rfl⟩
  · rw [replace, Buffer.replace, Buffer.replaceTagged, Buffer.checkRange, if_neg hrange] at h
    cases h

/-- The scan of a text takes the place of a piece of the buffer. -/
lemma replace_split {x m y : List Cell} (h : d.buffer.cells = x ++ m ++ y) (comments : Bool)
    (s : Scanner.State) (text : List Char) :
    ∃ d', d.replace x.length (x.length + m.length) (tokenize comments s text) = .ok d' ∧
      d.Grows d' ∧ d'.buffer.cells = x ++ classify comments s text ++ y := by
  have hstart : x.length ≤ x.length + m.length := Nat.le_add_right _ _
  have hstop := length_of_split h
  refine ⟨d.put x.length (x.length + m.length) (classify comments s text), ?_,
    grows_put hstart hstop _, Buffer.cells_splice_split h _⟩
  rw [replace, Buffer.replace_tokenize hstart hstop]
  rfl

/-- A piece of the buffer is removed. -/
lemma remove_split {x m y : List Cell} (h : d.buffer.cells = x ++ m ++ y) :
    ∃ d', d.remove x.length (x.length + m.length) = .ok d' ∧ d.Grows d' ∧
      d'.buffer.cells = x ++ y := by
  have hstart : x.length ≤ x.length + m.length := Nat.le_add_right _ _
  have hstop := length_of_split h
  refine ⟨d.put x.length (x.length + m.length) [], ?_, grows_put hstart hstop _, ?_⟩
  · rw [remove, Buffer.remove_eq_ok hstart hstop]
    rfl
  · rw [put, Buffer.cells_splice_split h, List.append_nil]

end Draft
end MetaPostEditor
