import MetaPostEditor.Proofs.MeaningfulTags
import MetaPostEditor.Proofs.WholeWords

/-!
# Tags that a scan would give again

An edit scans from a place where no word is open, in the state that the tags before the place tell,
to the end of its reach.  Tags are *steady* when every such scan would find them as it would set
them (`Steady`).  This does not say that they are those of a scan of the whole text.  What is out of
reach may be old, but it fits to the tags right before it.

An edit ends its last scan where its reach ends, and behind that the tags are read off a stop, so
they stay steady.  There is one exception.  Going back to a shallower indentation scans the
indentation only and leaves what follows on the line as it is.  The main result,
`Draft.edit_steady_iff`, says when steadiness survives this: exactly if what follows goes on as a
scan from the start of the line would tag it.
-/

namespace MetaPostEditor

variable {comments : Bool} {s t : Scanner.State} {p q x y z : List Cell}

/-! ## Cells that go on as a scan would tag them -/

/-- The cells are tagged, as far as an edit before them reaches, as a scan from the state tags
them. -/
def GoesOn (comments : Bool) (s : Scanner.State) (z : List Cell) : Prop :=
  classify comments s (reach comments (textOf z)) <+: z

instance (comments : Bool) (s : Scanner.State) (z : List Cell) :
    Decidable (GoesOn comments s z) :=
  inferInstanceAs (Decidable (_ <+: _))

/-- A text with a stop shields what follows it, and any other is in reach as a whole. -/
lemma reach_append (comments : Bool) (a b : List Char) :
    ((∀ c ∈ a, stops comments c = false) ∧ reach comments (a ++ b) = a ++ reach comments b) ∨
      ((∃ c ∈ a, stops comments c = true) ∧ reach comments (a ++ b) = reach comments a) := by
  induction a with
  | nil => exact .inl ⟨by simp, rfl⟩
  | cons c a ih =>
    cases hc : stops comments c with
    | true =>
      refine .inr ⟨⟨c, by simp, hc⟩, ?_⟩
      rw [List.cons_append, reach_of_head hc, reach_of_head hc]
    | false =>
      simp only [reach, List.cons_append, List.takeWhile_cons, hc] at ih ⊢
      rcases ih with ⟨hall, heq⟩ | ⟨⟨d, hd, hstop⟩, heq⟩
      · exact .inl ⟨List.forall_mem_cons.2 ⟨hc, hall⟩, by simp [heq]⟩
      · exact .inr ⟨⟨d, List.mem_cons_of_mem _ hd, hstop⟩, by simp [heq]⟩

lemma reach_of_forall {a : List Char} (h : ∀ c ∈ a, stops comments c = false) :
    reach comments a = a := by
  rw [reach, List.takeWhile_eq_self_iff]
  intro c hc
  rw [h c hc]
  rfl

lemma reach_length_le (comments : Bool) (z : List Cell) :
    (reach comments (textOf z)).length ≤ z.length := by
  rw [← length_textOf]
  exact (List.takeWhile_prefix _).length_le

lemma goesOn_of_carry_eq (h : s.carry = t.carry) (hz : GoesOn comments s z) :
    GoesOn comments t z := by
  rw [GoesOn, ← classify_of_carry_eq h]
  exact hz

lemma goesOn_of_stops (h : ∀ c, (textOf z).head? = some c → stops comments c = true)
    (s : Scanner.State) : GoesOn comments s z := by
  have hreach := reach_append_of_stops [] h
  rw [GoesOn, ← List.nil_append (textOf z), hreach]
  exact List.nil_prefix

/-- What is out of reach does not matter. -/
lemma goesOn_append_iff_left
    (h : reach comments (textOf (x ++ y)) = reach comments (textOf x)) :
    GoesOn comments s (x ++ y) ↔ GoesOn comments s x := by
  rw [GoesOn, GoesOn, h]
  constructor
  · intro hx
    refine List.prefix_of_prefix_length_le hx (List.prefix_append x y) ?_
    rw [length_classify]
    exact reach_length_le comments x
  · intro hx
    exact hx.trans (List.prefix_append x y)

/-- Cells that are in reach as a whole and end a word go on as one scan if they are tagged by it and
what follows goes on from the state it ends in. -/
lemma goesOn_append_iff (hx : Closed (textOf x))
    (h : reach comments (textOf (x ++ y)) = textOf x ++ reach comments (textOf y)) :
    GoesOn comments s (x ++ y) ↔
      x = classify comments s (textOf x) ∧ GoesOn comments (s.run comments (textOf x)) y := by
  rw [GoesOn, GoesOn, h, classify_append (hx.seam _)]
  constructor
  · rintro ⟨u, hu⟩
    rw [List.append_assoc] at hu
    obtain ⟨hfirst, hrest⟩ := List.append_inj hu (by simp)
    exact ⟨hfirst.symm, u, hrest⟩
  · rintro ⟨hfirst, u, hrest⟩
    exact ⟨u, by rw [← hfirst, List.append_assoc, hrest]⟩

/-- The tags of a scan go on as it does. -/
lemma goesOn_classify (comments : Bool) (s : Scanner.State) (text : List Char) :
    GoesOn comments s (classify comments s text) := by
  obtain ⟨rest, htext, hstop⟩ := exists_reach comments text
  rw [GoesOn, textOf_classify]
  generalize reach comments text = r at htext
  rw [htext, classify_append (seam_of_stops hstop r)]
  exact List.prefix_append _ _

/-- The state can be read off cells that go on as a scan does, also in the middle of a word. -/
lemma GoesOn.carryOf_append (h : GoesOn comments (carryOf p) (x ++ y))
    (hpossible : (carryOf p).Possible comments)
    (hreach : reach comments (textOf (x ++ y)) = textOf x ++ reach comments (textOf y)) :
    carryOf (p ++ x) = ((carryOf p).run comments (textOf x)).carry := by
  have htint := List.forall₂_take x.length
    (forall₂_classify comments (carryOf p) (textOf x ++ reach comments (textOf y)))
  rw [GoesOn, hreach] at h
  have htake : (classify comments (carryOf p) (textOf x ++ reach comments (textOf y))).take
      x.length = x := by
    obtain ⟨u, hu⟩ := h
    have hlen : x.length ≤
        (classify comments (carryOf p) (textOf x ++ reach comments (textOf y))).length := by
      rw [length_classify, length_textOf_append]
      omega
    rw [← List.take_append_of_le_length hlen, hu, List.take_left]
  have htrace : (Scanner.trace comments (carryOf p) (textOf x ++ reach comments (textOf y))).take
      x.length = Scanner.trace comments (carryOf p) (textOf x) := by
    rw [Scanner.trace_append]
    refine List.take_left' ?_
    rw [← List.length_map Prod.snd, Scanner.map_snd_trace, length_textOf]
  rw [htake, htrace] at htint
  exact MetaPostEditor.carryOf_append hpossible (carry_carryOf p).symm htint

/-! ## The state behind cells -/

lemma Closed.of_ne_nil {a : List Char} (h : Closed a) (hne : a ≠ []) (b : List Char) :
    Closed (b ++ a) := by
  intro c hc
  rw [List.getLast?_append_of_ne_nil _ hne] at hc
  exact h c hc

lemma isDelimiter_of_stops {cell : Cell} (h : stops comments cell.char = true) :
    cell.isDelimiter = false := by
  have hblank := isWhiteSpace_of_stops h
  cases hdel : cell.isDelimiter with
  | false => rfl
  | true =>
    simp only [Cell.isDelimiter, Bool.and_eq_true, beq_iff_eq] at hdel
    rw [hdel.1] at hblank
    exact absurd hblank (by decide)

/-- Only quotes pass on the state before them. -/
lemma carryOf_append_of_mem {cell : Cell} (hcell : cell ∈ x) (h : cell.isDelimiter = false)
    (p q : List Cell) : carryOf (p ++ x) = carryOf (q ++ x) := by
  induction x using List.reverseRecOn with
  | nil => simp at hcell
  | append_singleton x last ih =>
    rw [← List.append_assoc, ← List.append_assoc]
    cases hlast : last.isDelimiter with
    | false => rw [carryOf_concat_other hlast, carryOf_concat_other hlast]
    | true =>
      have hmem : cell ∈ x := by
        rcases List.mem_append.1 hcell with hmem | hmem
        · exact hmem
        · rw [List.mem_singleton.1 hmem, hlast] at h
          exact absurd h.symm Bool.false_ne_true
      rw [carryOf_concat_delimiter hlast, carryOf_concat_delimiter hlast, ih hmem]

lemma after_eq_comment {tag : Tag} (h : Scanner.State.after (some tag) = .comment) :
    tag = .comment := by
  cases tag <;> first | rfl | cases h

/-- Tags that fit tell a comment only where comments are shown. -/
lemma Meaningful.possible_carryOf (h : Meaningful comments x) :
    (carryOf x).Possible comments := by
  induction x using List.reverseRecOn with
  | nil => exact Scanner.State.possible_normal comments
  | append_singleton x last ih =>
    obtain ⟨hx, hlast⟩ := List.forall_mem_append.1 h
    cases hdel : last.isDelimiter with
    | true =>
      rw [carryOf_concat_delimiter hdel]
      intro hcomment
      refine ih hx ?_
      rw [← Scanner.State.acrossQuote_acrossQuote (carryOf x), hcomment]
      rfl
    | false =>
      rw [carryOf_concat_other hdel]
      intro hcomment
      exact ((hlast last (List.mem_singleton_self _)).comment (after_eq_comment hcomment)).1

/-- No comment goes on behind a newline whose tag fits. -/
lemma Meaningful.carryOf_ne_comment (h : Meaningful comments x)
    (hline : textOf x = [] ∨ (textOf x).getLast? = some '\n') : carryOf x ≠ .comment := by
  rcases List.eq_nil_or_concat x with rfl | ⟨x, last, rfl⟩
  · simp
  · rw [List.concat_eq_append] at h hline ⊢
    have hchar : last.char = '\n' := by
      rcases hline with hnil | hlast
      · simp [textOf] at hnil
      · simpa [textOf] using hlast
    have hstop : stops comments last.char = true := by
      rw [hchar, stops_newline]
    rw [carryOf_concat_other (isDelimiter_of_stops hstop)]
    intro hcomment
    exact ((h last (by simp)).comment (after_eq_comment hcomment)).2 hchar

/-! ## Steady tags -/

/-- Wherever a scan of the cells `q`, which follow the cells `p`, could start, it would find the
tags as it would set them. -/
def Steady (comments : Bool) (p q : List Cell) : Prop :=
  ∀ x z, q = x ++ z → Closed (textOf (p ++ x)) → GoesOn comments (carryOf (p ++ x)) z

/-- A scan from the state that is read off makes steady tags. -/
lemma steady_classify (hs : s.Possible comments) (hp : carryOf p = s.carry) (text : List Char) :
    Steady comments p (classify comments s text) := by
  intro x z hsplit hclosed
  rw [textOf_append] at hclosed
  have htext : text = textOf x ++ textOf z := by
    rw [← textOf_append, ← hsplit, textOf_classify]
  rw [htext, classify_append (hclosed.right.seam _)] at hsplit
  obtain ⟨hx, hz⟩ := List.append_inj hsplit (by simp)
  have hcarry : carryOf (p ++ x) = (s.run comments (textOf x)).carry := by
    rw [← hx, textOf_classify]
    exact carryOf_append_classify hs hp _
  rw [← hz]
  refine goesOn_of_carry_eq ?_ (goesOn_classify comments _ _)
  rw [hcarry, Scanner.State.carry_carry]

namespace Steady

lemma behind (h : Steady comments p (x ++ y)) : Steady comments (p ++ x) y := by
  rintro u z rfl hclosed
  rw [List.append_assoc] at hclosed ⊢
  exact h (x ++ u) z (by rw [List.append_assoc]) hclosed

lemma before (h : Steady comments p (x ++ y)) (hx : Closed (textOf (p ++ x))) :
    Steady comments p x := by
  rintro u z rfl hclosed
  have hz := h u (z ++ y) (by rw [List.append_assoc]) hclosed
  rcases reach_append comments (textOf z) (textOf y) with ⟨-, hreach⟩ | ⟨-, hreach⟩
  · rw [← textOf_append] at hreach
    rw [← List.append_assoc, textOf_append] at hx
    rw [goesOn_append_iff hx.right hreach] at hz
    rw [hz.1]
    exact goesOn_classify comments _ _
  · rw [← textOf_append] at hreach
    exact (goesOn_append_iff_left hreach).1 hz

/-- Steady tags can be put together where no word is open. -/
lemma append (hx : Steady comments p x) (hy : Steady comments (p ++ x) y)
    (hclosed : Closed (textOf (p ++ x))) (hmeaningful : Meaningful comments (p ++ x)) :
    Steady comments p (x ++ y) := by
  intro u z hsplit hu
  rcases List.append_eq_append_iff.1 hsplit.symm with ⟨v, rfl, rfl⟩ | ⟨v, rfl, rfl⟩
  · -- the scan starts in `x` and may go on in `y`
    have hv := hx u v rfl hu
    rcases reach_append comments (textOf v) (textOf y) with ⟨hall, hreach⟩ | ⟨-, hreach⟩
    · rw [← textOf_append] at hreach
      rw [← List.append_assoc] at hclosed hy hmeaningful
      have hpossible : (carryOf (p ++ u)).Possible comments := by
        refine Meaningful.possible_carryOf fun cell hcell => ?_
        exact hmeaningful cell (List.mem_append_left v hcell)
      have hwhole : v = classify comments (carryOf (p ++ u)) (textOf v) := by
        rw [GoesOn, reach_of_forall hall] at hv
        exact (hv.eq_of_length (by simp)).symm
      have hcarry : carryOf (p ++ u ++ v) =
          ((carryOf (p ++ u)).run comments (textOf v)).carry := by
        rw [hwhole, textOf_classify]
        exact carryOf_append_classify hpossible (carry_carryOf _).symm _
      have hrest := hy [] y rfl (by rwa [List.append_nil])
      rw [List.append_nil, hcarry] at hrest
      rw [textOf_append] at hclosed
      exact (goesOn_append_iff hclosed.right hreach).2
        ⟨hwhole, goesOn_of_carry_eq (Scanner.State.carry_carry _) hrest⟩
    · rw [← textOf_append] at hreach
      exact (goesOn_append_iff_left hreach).2 hv
  · rw [← List.append_assoc] at hu ⊢
    exact hy v z rfl hu

/-- Steady tags can be put together at a stop. -/
lemma append_of_stops (hx : Steady comments p x) (hy : Steady comments (p ++ x) y)
    (hstop : ∀ c, (textOf y).head? = some c → stops comments c = true) :
    Steady comments p (x ++ y) := by
  intro u z hsplit hu
  rcases List.append_eq_append_iff.1 hsplit.symm with ⟨v, rfl, rfl⟩ | ⟨v, rfl, rfl⟩
  · refine (goesOn_append_iff_left ?_).2 (hx u v rfl hu)
    rw [textOf_append]
    exact reach_append_of_stops _ hstop
  · rw [← List.append_assoc] at hu ⊢
    exact hy v z rfl hu

/-- What stands before steady tags matters only as far as an edit there reaches. -/
lemma of_goesOn (h : Steady comments q z) (hp : (carryOf p).Possible comments)
    (hz : GoesOn comments (carryOf p) z) : Steady comments p z := by
  rintro x y rfl hclosed
  rw [textOf_append] at hclosed
  rcases reach_append comments (textOf x) (textOf y) with ⟨-, hreach⟩ | ⟨⟨c, hc, hstop⟩, -⟩
  · rw [← textOf_append] at hreach
    obtain ⟨hx, hy⟩ := (goesOn_append_iff hclosed.right hreach).1 hz
    refine goesOn_of_carry_eq ?_ hy
    rw [hz.carryOf_append hp hreach, Scanner.State.carry_carry]
  · obtain ⟨cell, hcell, rfl⟩ := List.mem_map.1 hc
    rw [carryOf_append_of_mem hcell (isDelimiter_of_stops hstop) p q]
    refine h x y rfl ?_
    rw [textOf_append]
    exact hclosed.right.of_ne_nil (List.ne_nil_of_mem hc) _

/-- A scan from a place where no word is open to the end of its reach leaves steady tags. -/
lemma around (hx : Steady comments [] x) (hclosed : Closed (textOf x))
    (hmeaningful : Meaningful comments x) (text : List Char) (hy : Steady comments q y)
    (hstop : ∀ c, (textOf y).head? = some c → stops comments c = true) :
    Steady comments [] (x ++ classify comments (carryOf x) text ++ y) := by
  have hscan : Steady comments x (classify comments (carryOf x) text) :=
    steady_classify hmeaningful.possible_carryOf (carry_carryOf x).symm text
  have hmeaningful' : Meaningful comments (x ++ classify comments (carryOf x) text) :=
    List.forall_mem_append.2 ⟨hmeaningful, meaningful_classify comments _ text⟩
  refine (hx.append hscan hclosed hmeaningful).append_of_stops ?_ hstop
  exact hy.of_goesOn hmeaningful'.possible_carryOf (goesOn_of_stops hstop _)

end Steady

/-! ## Edits -/

/-- A word is in reach as a whole. -/
lemma reach_append_of_solid {w : List Char} (hw : Solid w) (comments : Bool) (b : List Char) :
    reach comments (w ++ b) = w ++ reach comments b := by
  rcases reach_append comments w b with ⟨-, hreach⟩ | ⟨⟨c, hc, hstop⟩, -⟩
  · exact hreach
  · have hblank := isWhiteSpace_of_stops hstop
    rw [hw c hc] at hblank
    exact absurd hblank Bool.false_ne_true

/-- The tags of the beginning of a word tell the state. -/
lemma Steady.carryOf_word {x₀ w : List Cell} (h : Steady comments [] (x₀ ++ w ++ y))
    (hx : Closed (textOf x₀)) (hw : Solid (textOf w)) (hpossible : (carryOf x₀).Possible comments) :
    carryOf (x₀ ++ w) = ((carryOf x₀).run comments (textOf w)).carry := by
  have hgoes := h x₀ (w ++ y) (by rw [List.append_assoc]) hx
  refine GoesOn.carryOf_append hgoes hpossible ?_
  rw [textOf_append, reach_append_of_solid hw]

namespace Draft

variable {d : Draft} {m : List Cell} {o : Options} {e : Edit}

/-- Going back to a shallower indentation leaves steady tags exactly if what follows goes on as from
the start of the line. -/
lemma backspace_back_steady_iff {outdent : Bool} (h : d.buffer.cells = x ++ m ++ y)
    (hback : goesBack outdent (textOf x) (textOf m) = true)
    (hsteady : Steady comments [] d.buffer.cells)
    (hmeaningful : Meaningful comments d.buffer.cells) :
    ∃ d' caret, d.backspace comments outdent x.length (x.length + m.length) = .ok (d', caret) ∧
      (Steady comments [] d'.buffer.cells ↔
        GoesOn comments (d.buffer.stateAt (Indentation.lineStart (textOf x) x.length)) y) := by
  obtain ⟨d', x₁, l, rfl, hstart, hline, -, hd', -, hcells⟩ := backspace_back h hback comments
  refine ⟨d', _, hd', ?_⟩
  generalize ht : Indentation.shallowerBefore (textOf (x₁ ++ l)) (x₁ ++ l).length = t at hcells
  have hblank : ∀ c ∈ t, Unicode.isWhiteSpace c = true := by
    intro c hc
    rw [← ht] at hc
    exact Indentation.isWhiteSpace_of_mem_shallowerBefore hc
  have hstate : d.buffer.stateAt (Indentation.lineStart (textOf (x₁ ++ l)) (x₁ ++ l).length) =
      carryOf x₁ := by
    rw [Buffer.stateAt_eq_carryOf, ← hstart, h, List.append_assoc, List.append_assoc,
      List.take_left]
  rw [h, List.append_assoc, List.append_assoc] at hsteady hmeaningful
  have hx₁ : Meaningful comments x₁ := (List.forall_mem_append.1 hmeaningful).1
  have hclosed : Closed (textOf x₁) := closed_of_newline hline
  have hmeaningful' : Meaningful comments (x₁ ++ classify comments (carryOf x₁) t) :=
    List.forall_mem_append.2 ⟨hx₁, meaningful_classify comments _ t⟩
  have hclosed' : Closed (textOf (x₁ ++ classify comments (carryOf x₁) t)) := by
    rw [textOf_append, textOf_classify]
    exact hclosed.append_of_isWhiteSpace hblank
  -- white space at the start of a line does not change the state
  have hcarry : carryOf (x₁ ++ classify comments (carryOf x₁) t) = carryOf x₁ := by
    rw [carryOf_append_classify hx₁.possible_carryOf (carry_carryOf x₁).symm,
      Scanner.State.run_carry_of_isWhiteSpace hblank, carry_carryOf]
    rw [carry_carryOf]
    exact hx₁.carryOf_ne_comment hline
  rw [hstate, hcells]
  constructor
  · intro hsteady'
    rw [← hcarry]
    exact hsteady' _ y rfl hclosed'
  · intro hgoes
    have hscan : Steady comments x₁ (classify comments (carryOf x₁) t) :=
      steady_classify hx₁.possible_carryOf (carry_carryOf x₁).symm t
    have hfirst := (hsteady.before hclosed).append hscan hclosed hx₁
    refine hfirst.append ?_ hclosed' hmeaningful'
    rw [← hcarry] at hgoes
    exact hsteady.behind.behind.behind.of_goesOn hmeaningful'.possible_carryOf hgoes

/-- **An edit leaves steady tags**, unless it goes back to a shallower indentation and what follows
does not go on as from the start of the line. -/
lemma edit_steady_iff (h : d.buffer.cells = x ++ m ++ y) (hpos : e.position = x.length)
    (hdel : e.deleted = m.length) (hsteady : Steady o.comments [] d.buffer.cells)
    (hmeaningful : Meaningful o.comments d.buffer.cells) :
    ∃ d' caret, d.edit o e = .ok (d', caret) ∧
      (Steady o.comments [] d'.buffer.cells ↔
        (e.isDeletion = true → goesBack o.outdent (textOf x) (textOf m) = true →
          GoesOn o.comments
            (d.buffer.stateAt (Indentation.lineStart (textOf x) x.length)) y)) := by
  by_cases hback : e.isDeletion = true ∧ goesBack o.outdent (textOf x) (textOf m) = true
  · obtain ⟨d', caret, hd', hiff⟩ := backspace_back_steady_iff h hback.2 hsteady hmeaningful
    refine ⟨d', caret, ?_, ?_⟩
    · rw [edit_of_isDeletion o hback.1, hpos, hdel, hd']
    · rw [hiff]
      constructor
      · intro hgoes _ _
        exact hgoes
      · intro hgoes
        exact hgoes hback.1 hback.2
  · -- one scan from the beginning of a word to the end of the reach
    obtain ⟨x₀, w, rfl, hx, hw⟩ := exists_closed_solid x
    have hword : e.isDeletion = true →
        goesBack o.outdent (textOf (x₀ ++ w)) (textOf m) = false := by
      intro he
      exact Bool.eq_false_iff.2 fun hgoes => hback ⟨he, hgoes⟩
    obtain ⟨d', t, -, hd', -, -, hcells⟩ := edit_scan_spec h hx hw o hpos hdel hword
    rw [h] at hsteady hmeaningful
    have hy := hsteady.behind
    rw [List.append_assoc (x₀ ++ w)] at hsteady
    have hx₀ : Meaningful o.comments x₀ := by
      intro cell hcell
      exact hmeaningful cell (by simp [hcell])
    have hcarry := hsteady.carryOf_word hx hw hx₀.possible_carryOf
    rw [List.append_assoc] at hsteady
    have hsteady' : Steady o.comments [] d'.buffer.cells := by
      rw [hcells hcarry hx₀.possible_carryOf]
      rw [← List.take_append_drop (reach o.comments (textOf y)).length y] at hy
      refine (hsteady.before hx).around hx hx₀ _ hy.behind ?_
      rw [textOf_drop]
      exact drop_reach o.comments (textOf y)
    exact ⟨d', _, hd', fun _ he hgoes => absurd ⟨he, hgoes⟩ hback, fun _ => hsteady'⟩

end Draft
end MetaPostEditor
