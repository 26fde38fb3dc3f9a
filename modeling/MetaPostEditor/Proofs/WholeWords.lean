import MetaPostEditor.Proofs.LinearHistory

/-!
# No word is left half tagged

An edit scans only a part of the text, and behind that part old tags may stay.  A quote that opens a
string, for example, does not reach the next line.  But wherever old tags stay, they stay on whole
words: all that is seen of a word at a time comes from one scan (`WholeWords`).

The words of two texts that stand side by side are the words of the one and of the other, if white
space stands at the border.  So only the words at the place of an edit are in danger.  There an edit
scans once or several times, and the first scan may leave a half of a word behind, which a later one
puts right (`Draft.refresh_whole`).  The main result, `Editor.run_wholeWords`, says that in every
state of a run in which comments are shown always or never, each word has the tags of one scan.
-/

namespace MetaPostEditor

/-! ## The words of a text -/

/-- No word goes on at the beginning of the text. -/
def Detached (b : List Char) : Prop :=
  ∀ c, b.head? = some c → Unicode.isWhiteSpace c = true

instance (b : List Char) : Decidable (Detached b) :=
  b.head?.decidableForallMem

lemma detached_nil : Detached [] := by simp [Detached]

lemma closed_nil : Closed [] := by simp [Closed]

lemma Detached.seam {b : List Char} (h : Detached b) (a : List Char) : Seam a b :=
  fun _ d _ hd => Or.inr (h d hd)

lemma Detached.left {a b : List Char} (h : Detached (a ++ b)) : Detached a := by
  intro c hc
  exact h c (by rw [List.head?_append, hc, Option.some_or])

lemma Closed.right {a b : List Char} (h : Closed (a ++ b)) : Closed b := by
  intro c hc
  exact h c (by rw [List.getLast?_append, hc, Option.some_or])

lemma Solid.eq_nil {w : List Char} (hw : Solid w) (h : Detached w) : w = [] := by
  cases w with
  | nil => rfl
  | cons c w =>
    have hblank := h c rfl
    rw [hw c List.mem_cons_self] at hblank
    exact absurd hblank Bool.false_ne_true

lemma solid_append {x y : List Cell} :
    Solid (textOf (x ++ y)) ↔ Solid (textOf x) ∧ Solid (textOf y) := by
  rw [textOf_append, Solid, List.forall_mem_append]
  rfl

/-- Where a word ends at a border, none goes on behind it. -/
lemma Seam.detached {a w b : List Char} (h : Seam (a ++ w) b) (hw : Solid w) (hne : w ≠ []) :
    Detached b := by
  intro d hd
  have hlast : (a ++ w).getLast? = some (w.getLast hne) := by
    rw [List.getLast?_append_of_ne_nil _ hne, List.getLast?_eq_some_getLast hne]
  rcases h _ d hlast hd with hblank | hblank
  · rw [hw _ (List.getLast_mem hne)] at hblank
    exact absurd hblank Bool.false_ne_true
  · exact hblank

/-- Where a word begins at a border, none is open before it. -/
lemma Seam.closed {a w b : List Char} (h : Seam a (w ++ b)) (hw : Solid w) (hne : w ≠ []) :
    Closed a := by
  intro c hc
  have hhead : (w ++ b).head? = some (w.head hne) := by
    rw [List.head?_append, List.head?_eq_some_head hne, Option.some_or]
  rcases h c _ hc hhead with hblank | hblank
  · exact hblank
  · rw [hw _ (List.head_mem hne)] at hblank
    exact absurd hblank Bool.false_ne_true

/-- A longest stretch `w` of the cells in which there is no white space, with what stands before
and behind it. -/
structure WordAt (cells x w y : List Cell) : Prop where
  split : cells = x ++ w ++ y
  closed : Closed (textOf x)
  solid : Solid (textOf w)
  detached : Detached (textOf y)

/-- Each word is tagged as one scan tags it. -/
def WholeWords (comments : Bool) (cells : List Cell) : Prop :=
  ∀ x w y, WordAt cells x w y → ∃ s, w = classify comments s (textOf w)

lemma detached_drop_reach (comments : Bool) (y : List Cell) :
    Detached (textOf (y.drop (reach comments (textOf y)).length)) := by
  intro c hc
  rw [textOf_drop] at hc
  exact isWhiteSpace_of_stops (drop_reach comments (textOf y) c hc)

variable {comments : Bool} {p q : List Cell}

/-- What one scan tags has whole words. -/
lemma wholeWords_classify (comments : Bool) (s : Scanner.State) (text : List Char) :
    WholeWords comments (classify comments s text) := by
  rintro x w y ⟨hsplit, hx, hw, hy⟩
  have htext : text = textOf x ++ (textOf w ++ textOf y) := by
    rw [← textOf_classify comments s text, hsplit]
    simp
  -- the scan can be cut on both sides of the word
  rw [htext, classify_append (hx.seam _), classify_append (hy.seam _), List.append_assoc] at hsplit
  obtain ⟨-, hrest⟩ := List.append_inj hsplit (by simp)
  obtain ⟨hword, -⟩ := List.append_inj hrest (by simp)
  exact ⟨_, hword.symm⟩

namespace WholeWords

/-- At white space texts with whole words can be put together. -/
lemma append (hp : WholeWords comments p) (hseam : Seam (textOf p) (textOf q))
    (hq : WholeWords comments q) : WholeWords comments (p ++ q) := by
  rintro x w y ⟨hsplit, hx, hw, hy⟩
  rcases List.append_eq_append_iff.1 hsplit with ⟨r, hxw, rfl⟩ | ⟨r, rfl, rfl⟩
  · rcases List.append_eq_append_iff.1 hxw with ⟨v, rfl, rfl⟩ | ⟨v, rfl, rfl⟩
    · -- the border is in the word or at one of its ends, so it is at an end
      obtain ⟨hv, hr⟩ := solid_append.1 hw
      by_cases hne : textOf v = []
      · obtain rfl : v = [] := by simpa [textOf] using hne
        exact hq [] r y ⟨rfl, closed_nil, hr, hy⟩
      · rw [textOf_append, textOf_append] at hseam
        obtain rfl : r = [] := by
          have hdetached := (hseam.detached hv hne).left
          simpa [textOf] using hr.eq_nil hdetached
        rw [List.append_nil]
        exact hp x v [] ⟨by simp, hx, hv, detached_nil⟩
    · rw [textOf_append] at hx
      exact hq v w y ⟨by simp, hx.right, hw, hy⟩
  · rw [textOf_append] at hy
    exact hp x w r ⟨rfl, hx, hw, hy.left⟩

lemma left (h : WholeWords comments (p ++ q)) (hseam : Seam (textOf p) (textOf q)) :
    WholeWords comments p := by
  rintro x w y ⟨rfl, hx, hw, hy⟩
  by_cases hne : textOf w = []
  · exact ⟨.normal, by rw [hne]; simpa [textOf] using hne⟩
  · refine h x w (y ++ q) ⟨by simp, hx, hw, ?_⟩
    cases y with
    | nil =>
      rw [List.append_nil, textOf_append] at hseam
      exact hseam.detached hw hne
    | cons cell y =>
      intro c hc
      exact hy c hc

lemma right (h : WholeWords comments (p ++ q)) (hseam : Seam (textOf p) (textOf q)) :
    WholeWords comments q := by
  rintro x w y ⟨rfl, hx, hw, hy⟩
  by_cases hne : textOf w = []
  · exact ⟨.normal, by rw [hne]; simpa [textOf] using hne⟩
  · refine h (p ++ x) w y ⟨by simp, ?_, hw, hy⟩
    rcases List.eq_nil_or_concat x with rfl | ⟨x', cell, rfl⟩
    · rw [List.nil_append, textOf_append] at hseam
      simpa using hseam.closed hw hne
    · intro c hc
      refine hx c ?_
      simpa [textOf, List.getLast?_append] using hc

/-- What an edit before it cannot reach keeps its words. -/
lemma drop_reach (h : WholeWords comments (p ++ q)) :
    WholeWords comments (q.drop (reach comments (textOf q)).length) := by
  have hsplit : p ++ q = p ++ q.take (reach comments (textOf q)).length ++
      q.drop (reach comments (textOf q)).length := by
    rw [List.append_assoc, List.take_append_drop]
  rw [hsplit] at h
  exact h.right ((detached_drop_reach comments q).seam _)

/-- A scan from a place where no word is open to the end of its reach leaves whole words. -/
lemma around {x₀ y : List Cell} (hx₀ : WholeWords comments x₀) (hx : Closed (textOf x₀))
    (s : Scanner.State) (text : List Char) (hy : WholeWords comments y)
    (hdetached : Detached (textOf y)) :
    WholeWords comments (x₀ ++ classify comments s text ++ y) :=
  (hx₀.append (hx.seam _) (wholeWords_classify comments s text)).append (hdetached.seam _) hy

end WholeWords

/-! ## Words at the place of an edit -/

namespace Draft

variable {d : Draft} {x₀ w y z : List Cell}

/-- A scan at a place puts the word right that runs over it.  If the cells `y` settle how far it
goes, it does not touch the cells `z` behind them. -/
lemma refresh_whole (h : d.buffer.cells = x₀ ++ w ++ (y ++ z)) (hx : Closed (textOf x₀))
    (hw : Solid (textOf w))
    (hreach : reach comments (textOf y ++ textOf z) = reach comments (textOf y))
    (hx₀ : WholeWords comments x₀)
    (hy : WholeWords comments (y.drop (reach comments (textOf y)).length)) :
    ∃ d' p, d.refresh comments (x₀ ++ w).length = .ok d' ∧ d'.buffer.cells = p ++ z ∧
      textOf p = textOf (x₀ ++ w) ++ textOf y ∧ WholeWords comments p := by
  obtain ⟨d', hd', -, -, hcells⟩ := refresh_spec h hx hw comments
  have hle : (reach comments (textOf y)).length ≤ y.length := by
    rw [← length_textOf]
    exact (List.takeWhile_prefix _).length_le
  rw [textOf_append, hreach, List.drop_append_of_le_length hle, ← List.append_assoc] at hcells
  refine ⟨d', _, hd', hcells, ?_, hx₀.around hx _ _ hy (detached_drop_reach comments y)⟩
  simp [textOf_drop, reach_append_drop]

/-- The last step of an insertion that ends with white space.  A part `r` of the text behind it has
been scanned with it. -/
lemma refresh_end_whole {a r : List Char} (h : d.buffer.cells = p ++ y.drop r.length)
    (hp : textOf p = a ++ r) (hr : r <+: reach comments (textOf y)) (ha : Closed a)
    (hwhole : WholeWords comments p)
    (hy : WholeWords comments (y.drop (reach comments (textOf y)).length)) :
    ∃ d', d.refresh comments a.length = .ok d' ∧ WholeWords comments d'.buffer.cells := by
  obtain ⟨p₁, p₂, rfl, rfl, rfl⟩ := List.map_eq_append_iff.1 hp
  rw [← textOf] at h hr ha ⊢
  rw [length_textOf] at h ⊢
  have htext : textOf (p₂ ++ y.drop p₂.length) = textOf y := by
    obtain ⟨u, hu⟩ := hr.trans (List.takeWhile_prefix _)
    rw [textOf_append, textOf_drop, ← hu, ← length_textOf p₂, List.drop_left]
  have hdrop : (p₂ ++ y.drop p₂.length).drop (reach comments (textOf y)).length =
      y.drop (reach comments (textOf y)).length := by
    have hle := hr.length_le
    rw [length_textOf] at hle
    exact drop_append_drop hle
  have hsplit : d.buffer.cells = p₁ ++ [] ++ (p₂ ++ y.drop p₂.length ++ []) := by rw [h]; simp
  rw [← htext] at hy hdrop
  rw [← hdrop] at hy
  obtain ⟨d', p, hd', hcells, -, hp'⟩ := refresh_whole hsplit ha solid_nil (by simp)
    (hwhole.left (ha.seam _)) hy
  rw [List.append_nil] at hd' hcells
  exact ⟨d', hd', hcells ▸ hp'⟩

/-- The first steps of an insertion: the text is put in, and the word before it is put right. -/
lemma insertText_start_whole (h : d.buffer.cells = x₀ ++ w ++ y) (hx : Closed (textOf x₀))
    (hw : Solid (textOf w)) (hx₀ : WholeWords comments x₀) (inserted : List Char) :
    ∃ d₁ d₂ p, d.insert comments (x₀ ++ w).length inserted =
        .ok (d₁, (x₀ ++ w).length + inserted.length) ∧
      (if Text.startsBlank inserted then d₁.refresh comments (x₀ ++ w).length else pure d₁) =
        .ok d₂ ∧
      d₂.buffer.cells = p ++ y.drop (rightOf comments inserted (textOf y)).length ∧
      textOf p = textOf (x₀ ++ w) ++ inserted ++ rightOf comments inserted (textOf y) ∧
      WholeWords comments p := by
  cases hins : Text.startsBlank inserted with
  | false =>
    obtain ⟨d₁, hd₁, -, hcells⟩ := insert_word_spec h hx hw hins comments
    refine ⟨d₁, d₁, _, hd₁, rfl, hcells, by simp, ?_⟩
    exact hx₀.append (hx.seam _) (wholeWords_classify comments _ _)
  | true =>
    -- the text is scanned from the place on, and `w` is left over if it was half of a word
    obtain ⟨d₁, hd₁, -, hcells₁⟩ := insert_blank_spec h hins comments
    rw [List.append_assoc (x₀ ++ w)] at hcells₁
    have hreach := reach_rightOf comments hins (textOf y)
    rw [← textOf_drop, ← textOf_classify comments (carryOf (x₀ ++ w)) (inserted ++ _)] at hreach
    have hscan := wholeWords_classify comments (carryOf (x₀ ++ w))
      (inserted ++ rightOf comments inserted (textOf y))
    obtain ⟨d₂, p, hd₂, hcells₂, hp, hwhole⟩ :=
      refresh_whole hcells₁ hx hw hreach hx₀ (hscan.drop_reach (p := []))
    refine ⟨d₁, d₂, p, hd₁, hd₂, hcells₂, ?_, hwhole⟩
    rw [hp, textOf_classify, List.append_assoc (textOf (x₀ ++ w))]

/-- An insertion leaves whole words if those out of its reach are whole. -/
lemma insertText_whole (h : d.buffer.cells = x₀ ++ w ++ y) (hx : Closed (textOf x₀))
    (hw : Solid (textOf w)) (hx₀ : WholeWords comments x₀)
    (hy : WholeWords comments (y.drop (reach comments (textOf y)).length))
    (inserted : List Char) :
    ∃ d' caret, d.insertText comments (x₀ ++ w).length inserted = .ok (d', caret) ∧
      WholeWords comments d'.buffer.cells := by
  obtain ⟨d₁, d₂, p, hd₁, hd₂, hcells, hp, hwhole⟩ :=
    insertText_start_whole h hx hw hx₀ inserted
  cases hins : Text.endsBlank inserted with
  | false =>
    -- the scan has gone to the end of the reach
    have hright : rightOf comments inserted (textOf y) = reach comments (textOf y) := by
      simp [rightOf, hins]
    rw [hright] at hcells
    refine ⟨d₂, _, insertText_of_steps hd₁ hd₂ (by rw [hins]; rfl), ?_⟩
    rw [hcells]
    exact hwhole.append ((detached_drop_reach comments y).seam _) hy
  | true =>
    have hr := rightOf_isPrefix_reach comments inserted (textOf y)
    obtain ⟨d₃, hd₃, hwhole₃⟩ :=
      refresh_end_whole hcells hp hr (closed_append_of_endsBlank hins) hwhole hy
    rw [length_textOf_append] at hd₃
    exact ⟨d₃, _, insertText_of_steps hd₁ hd₂ (by rw [hins]; exact hd₃), hwhole₃⟩

/-- Enter leaves whole words, as an insertion does. -/
lemma newline_whole (h : d.buffer.cells = x₀ ++ w ++ y) (hx : Closed (textOf x₀))
    (hw : Solid (textOf w)) (hx₀ : WholeWords comments x₀)
    (hy : WholeWords comments (y.drop (reach comments (textOf y)).length)) :
    ∃ d' caret, d.newline comments (x₀ ++ w).length = .ok (d', caret) ∧
      WholeWords comments d'.buffer.cells := by
  obtain ⟨inserted, hins⟩ :
      ∃ inserted, inserted = '\n' :: Indentation.before d.buffer.text (x₀ ++ w).length := ⟨_, rfl⟩
  have hend : Text.endsBlank inserted = true := hins ▸ Indentation.endsBlank_newline _ _
  obtain ⟨d₁, hd₁, -, hcells₁, hreach⟩ := newline_start h comments hins
  rw [← textOf_classify comments (carryOf (x₀ ++ w)) inserted] at hreach
  have hscan := wholeWords_classify comments (carryOf (x₀ ++ w)) inserted
  obtain ⟨d₂, p, hd₂, hcells₂, hp, hwhole⟩ :=
    refresh_whole hcells₁ hx hw hreach hx₀ (hscan.drop_reach (p := []))
  rw [textOf_classify] at hp
  obtain ⟨d₃, hd₃, hwhole₃⟩ := refresh_end_whole (r := []) hcells₂ (by rw [hp, List.append_nil])
    List.nil_prefix (closed_append_of_endsBlank hend) hwhole hy
  rw [length_textOf_append] at hd₃
  exact ⟨d₃, _, newline_of_steps h hins hd₁ hd₂ hd₃, hwhole₃⟩

/-- Going back to a shallower indentation scans nothing behind it, and no word is cut there. -/
lemma backspace_back_whole {outdent : Bool} {x m : List Cell}
    (h : d.buffer.cells = x ++ m ++ y)
    (hback : goesBack outdent (textOf x) (textOf m) = true)
    (hwhole : WholeWords comments d.buffer.cells) :
    ∃ d' caret, d.backspace comments outdent x.length (x.length + m.length) = .ok (d', caret) ∧
      WholeWords comments d'.buffer.cells := by
  obtain ⟨d', x₁, l, rfl, -, hline, hl, hd', -, hcells⟩ := backspace_back h hback comments
  refine ⟨d', _, hd', ?_⟩
  have hx₁ : Closed (textOf x₁) := closed_of_newline hline
  have hblank : ∀ c ∈ textOf m, Unicode.isWhiteSpace c = true := by
    rw [goesBack, Bool.and_eq_true, Bool.and_eq_true, Bool.and_eq_true] at hback
    exact List.all_eq_true.1 hback.1.1.2
  have hbefore : WholeWords comments x₁ := by
    rw [h, List.append_assoc, List.append_assoc] at hwhole
    exact hwhole.left (hx₁.seam _)
  -- there was white space before `y`, and there is now
  have hbehind : WholeWords comments y := by
    rw [h] at hwhole
    refine hwhole.right (Closed.seam ?_ _)
    rw [textOf_append, textOf_append]
    exact (hx₁.append_of_isWhiteSpace hl).append_of_isWhiteSpace hblank
  rw [hcells]
  have hscan := hbefore.append (hx₁.seam _) (wholeWords_classify comments (carryOf x₁)
    (Indentation.shallowerBefore (textOf (x₁ ++ l)) (x₁ ++ l).length))
  refine hscan.append (Closed.seam ?_ _) hbehind
  rw [textOf_append, textOf_classify]
  exact hx₁.append_of_isWhiteSpace fun c hc => Indentation.isWhiteSpace_of_mem_shallowerBefore hc

/-- **An edit leaves whole words.** -/
lemma edit_whole {x m : List Cell} (h : d.buffer.cells = x ++ m ++ y) {o : Options} {e : Edit}
    (hpos : e.position = x.length) (hdel : e.deleted = m.length)
    (hwhole : WholeWords o.comments d.buffer.cells) :
    ∃ d' caret, d.edit o e = .ok (d', caret) ∧ WholeWords o.comments d'.buffer.cells := by
  obtain ⟨x₀, w, hxw, hx, hw⟩ := exists_closed_solid x
  -- out of reach of the edit, on both sides, the words are as they were
  have hwhole' := hwhole
  rw [h] at hwhole'
  have hy := hwhole'.drop_reach
  have hx₀ : WholeWords o.comments x₀ := by
    rw [hxw, List.append_assoc, List.append_assoc] at hwhole'
    exact hwhole'.left (hx.seam _)
  cases he : e.isDeletion with
  | true =>
    rw [edit_of_isDeletion o he, hpos, hdel]
    cases hback : goesBack o.outdent (textOf x) (textOf m) with
    | true => exact backspace_back_whole h hback hwhole
    | false =>
      subst hxw
      obtain ⟨d', hd', -, hcells⟩ := backspace_word h hx hw hback o.comments
      refine ⟨d', _, hd', ?_⟩
      rw [hcells]
      exact hx₀.around hx _ _ hy (detached_drop_reach o.comments y)
  | false =>
    obtain ⟨d₁, -, hcells₁, heq⟩ := edit_of_not_isDeletion h o hpos hdel he
    subst hxw
    rw [heq]
    split
    · exact newline_whole hcells₁ hx hw hx₀ hy
    · exact insertText_whole hcells₁ hx hw hx₀ hy e.inserted

end Draft

/-! ## Runs in one mode -/

/-- The transaction leads from styled text to styled text, both with whole words. -/
def Transaction.Whole (comments : Bool) (t : Transaction) (e : Entry (List Cell)) : Prop :=
  t.comments = comments ∧ Trail t.changes e.before e.after ∧
    WholeWords comments e.before ∧ WholeWords comments e.after

namespace Editor

variable {ed ed₀ : Editor}

/-- The operation leaves it as it is whether comments are shown. -/
def KeepsComments (ed : Editor) : Operation → Prop
  | .set args => (ed.set args).2.options.comments = ed.options.comments
  | _ => True

instance (ed : Editor) : (op : Operation) → Decidable (ed.KeepsComments op)
  | .set _ => inferInstanceAs (Decidable (_ = _))
  | .edit _ | .load _ | .undo | .redo | .markSaved | .paste _ | .type _ =>
    inferInstanceAs (Decidable True)

/-- All words are whole, and they were so whenever a transaction was recorded. -/
structure Unbroken (ed : Editor) : Prop where
  whole : WholeWords ed.options.comments ed.buffer.cells
  limited : ed.Limited
  history : ∃ z : Zipper (List Cell), z.now = ed.buffer.cells ∧
    z.Mirrors True (Transaction.Whole ed.options.comments) id ed.history

lemma unbroken_of_empty {b : Buffer} {o : Options} {caret : Nat}
    (hb : WholeWords o.comments b.cells) :
    Unbroken ⟨b, o, History.empty o.undolevels.toNat, caret⟩ :=
  ⟨hb, rfl, .start b.cells, rfl, Zipper.Mirrors.start (fun _ => ⟨rfl, rfl⟩) _⟩

lemma unbroken_load (ed : Editor) (text : List Char) : (ed.load text).Unbroken := by
  obtain ⟨b, hb, hcells⟩ := ed.load_spec text
  rw [hb]
  refine unbroken_of_empty ?_
  rw [hcells]
  exact wholeWords_classify _ _ _

lemma Initial.unbroken (h : Initial ed) : ed.Unbroken := by
  cases h with
  | empty options => exact unbroken_of_empty (wholeWords_classify _ .normal [])
  | ofText text => exact unbroken_load _ _

lemma whole_after (h : WholeWords ed.options.comments ed.buffer.cells) (e : Edit) :
    WholeWords ed.options.comments (ed.after e).buffer.cells := by
  rcases Nat.lt_or_ge ed.buffer.length (e.position + e.deleted) with hout | hin
  · rwa [after_of_gt hout]
  · obtain ⟨hsplit, hpos, hdel⟩ := ed.cells_of_edit hin
    obtain ⟨d, caret, hd, hwhole⟩ :=
      Draft.edit_whole (d := ⟨ed.buffer, []⟩) (o := ed.options) hsplit hpos hdel h
    rwa [after_of_edit hin hd]

namespace Unbroken

lemma after (h : ed.Unbroken) (e : Edit) : (ed.after e).Unbroken := by
  have hedited := ed.edited_after e
  have hwhole := whole_after h.whole e
  have hoptions := hedited.options
  obtain ⟨z, hnow, hmirrors⟩ := h.history
  refine ⟨by rwa [hoptions], h.limited.after e,
    z.note ed (ed.after e) z.now (ed.after e).buffer.cells, z.now_note hedited fun hsame => ?_, ?_⟩
  · rw [hnow, hsame]
  · rw [hoptions]
    refine hmirrors.note h.limited hedited rfl fun cs htrail => ?_
    rw [hnow]
    exact ⟨rfl, htrail, h.whole, hwhole⟩

lemma set (h : ed.Unbroken) {args : String}
    (hcomments : (ed.set args).2.options.comments = ed.options.comments) :
    (ed.set args).2.Unbroken := by
  have hlimited := h.limited.set args
  obtain ⟨z, hnow, hmirrors⟩ := h.history
  obtain ⟨b, hb, -, hsame, -⟩ := ed.set_spec args
  rw [hb] at hlimited hcomments ⊢
  obtain rfl := hsame hcomments
  have hmirrors' := hmirrors.relimit ed.options.undolevels (ed.options.set args).2.undolevels
  rw [← hcomments] at hmirrors'
  refine ⟨?_, hlimited, _, ?_, hmirrors'⟩
  · rw [hcomments]
    exact h.whole
  · rw [Zipper.now_relimit, hnow]

/-- Tags that were made in the mode of the editor come back as they were. -/
lemma replayed {r : Restored} {hist : History} {x y : List Cell}
    {outcome : Except EditError (Option Nat) × Editor} {z : Zipper (List Cell)} (h : ed.Unbroken)
    (hreplayed : ed.Replayed r hist x y outcome) (hmode : r.comments = ed.options.comments)
    (hx : ed.buffer.cells = x) (hy : WholeWords ed.options.comments y)
    (hlimit : hist.limit = ed.history.limit) (hnow : z.now = y)
    (hmirrors : z.Mirrors True (Transaction.Whole ed.options.comments) id hist) :
    outcome.2.Unbroken := by
  obtain ⟨b, rfl, -, hsame, -⟩ := hreplayed
  obtain rfl := hsame hmode hx
  exact ⟨hy, hlimit.trans h.limited, z, hnow, hmirrors⟩

lemma undo (h : ed.Unbroken) : ed.undo.2.Unbroken := by
  obtain ⟨z, hnow, hmirrors⟩ := h.history
  rcases hmirrors.undo (hmirrors.past.own trivial) with
    ⟨hnone, -⟩ | ⟨t, ts, e, es, hts, hes, ⟨hmode, htrail, hbefore, -⟩, hk, hmirrors'⟩
  · rw [undo_of_nil hnone]
    exact h
  · have hx : ed.buffer.cells = e.after := hnow.symm.trans hk.symm
    have hreplayed := undo_of_cons hts htrail (by rw [text, Buffer.text_eq, hx])
    exact h.replayed hreplayed hmode hx hbefore rfl (by rw [Zipper.back_of_cons hes]) hmirrors'

lemma redo (h : ed.Unbroken) : ed.redo.2.Unbroken := by
  obtain ⟨z, hnow, hmirrors⟩ := h.history
  rcases hmirrors.redo (hmirrors.future.own trivial) with
    ⟨hnone, -⟩ | ⟨t, ts, e, es, hts, hes, ⟨hmode, htrail, -, hafter⟩, hk, hmirrors'⟩
  · rw [redo_of_nil hnone]
    exact h
  · have hx : ed.buffer.cells = e.before := hnow.symm.trans hk.symm
    have hreplayed := redo_of_cons hts htrail (by rw [text, Buffer.text_eq, hx])
    exact h.replayed hreplayed hmode hx hafter rfl (by rw [Zipper.forth_of_cons hes]) hmirrors'

lemma perform (h : ed.Unbroken) {op : Operation} (hop : ed.KeepsComments op) :
    (ed.perform op).Unbroken := by
  cases op with
  | edit e => exact h.after e
  | load text => exact unbroken_load ed text
  | set args => exact h.set hop
  | undo => exact h.undo
  | redo => exact h.redo
  | markSaved => exact ⟨h.whole, h.limited, h.history⟩
  | paste text => exact (perform_of_after (fun _ e hed => hed.after e) h text).1
  | type text => exact (perform_of_after (fun _ e hed => hed.after e) h text).2

end Unbroken

/-- **No word is left half tagged.**  In every state of a run in which comments are shown always or
never, the tags of each word are those that one scan of the word gives it, from one of the three
states in which a scan of a part of the text can start. -/
theorem run_wholeWords (hinit : Initial ed₀) {ops : List Operation}
    (hops : Along KeepsComments ed₀ ops) (n : Nat) {x w y : List Cell}
    (hword : WordAt (ed₀.run (ops.take n)).buffer.cells x w y) :
    ∃ s ∈ [Scanner.State.normal, .quoted, .comment],
      w.map (·.tag) =
        tagsOf (tokenize (ed₀.run (ops.take n)).options.comments s (textOf w)) := by
  have hunbroken : (ed₀.run (ops.take n)).Unbroken :=
    run_invariant (fun _ _ h hop => h.perform hop) hinit.unbroken (hops.take n)
  obtain ⟨s, hs⟩ := hunbroken.whole x w y hword
  refine ⟨s.carry, ?_, ?_⟩
  · cases s <;> simp [Scanner.State.carry]
  · rw [← map_tag_classify, classify_of_carry_eq (Scanner.State.carry_carry s), ← hs]

/-- A quote cuts the word of the first line in two and does not reach the second line, where half of
a word is removed and brought back. -/
theorem run_wholeWords_old_tags :
    Initial (ofText ['i', 'f', '\n', 'f', 'i']) ∧
      Along KeepsComments (ofText ['i', 'f', '\n', 'f', 'i'])
        [.edit ⟨1, 0, ['"']⟩, .edit ⟨5, 1, []⟩, .set "nooutdent", .undo] ∧
      ¬ ((ofText ['i', 'f', '\n', 'f', 'i']).run
        [.edit ⟨1, 0, ['"']⟩, .edit ⟨5, 1, []⟩, .set "nooutdent", .undo]).Fresh ∧
      WordAt ((ofText ['i', 'f', '\n', 'f', 'i']).run
          [.edit ⟨1, 0, ['"']⟩, .edit ⟨5, 1, []⟩, .set "nooutdent", .undo]).buffer.cells
        [⟨'i', .normal⟩, ⟨'"', .normal⟩, ⟨'f', .quoted⟩, ⟨'\n', .normal⟩]
        [⟨'f', .keyword⟩, ⟨'i', .keyword⟩] [] ∧
      ∃ s ∈ [Scanner.State.normal, .quoted, .comment],
        [Tag.keyword, Tag.keyword] = tagsOf (tokenize false s ['f', 'i']) := by
  have hinit : Initial (ofText ['i', 'f', '\n', 'f', 'i']) := .ofText _
  have hops : Along KeepsComments (ofText ['i', 'f', '\n', 'f', 'i'])
      [.edit ⟨1, 0, ['"']⟩, .edit ⟨5, 1, []⟩, .set "nooutdent", .undo] :=
    ⟨trivial, trivial, by decide, trivial, trivial⟩
  have hword : WordAt ((ofText ['i', 'f', '\n', 'f', 'i']).run
        [.edit ⟨1, 0, ['"']⟩, .edit ⟨5, 1, []⟩, .set "nooutdent", .undo]).buffer.cells
      [⟨'i', .normal⟩, ⟨'"', .normal⟩, ⟨'f', .quoted⟩, ⟨'\n', .normal⟩]
      [⟨'f', .keyword⟩, ⟨'i', .keyword⟩] [] :=
    ⟨by decide, by decide, by decide, by decide⟩
  exact ⟨hinit, hops, by decide, hword, run_wholeWords hinit hops 4 hword⟩

end Editor
end MetaPostEditor
