import MetaPostEditor.Proofs.CarryIn
import MetaPostEditor.Proofs.Splices
import Mathlib.Data.List.DropRight

/-!
# What an insertion scans again

An insertion scans the words that touch it again, and where comments are shown also the rest of the
line.  Here the text before the place is taken apart into `x₀`, at whose end no word is open, and
the beginning `w` of a word; the text behind it into what the insertion can `reach` and the rest.

The main results give the cells after each step of an edit, for any tags that the buffer may have:

* `Draft.refresh_spec`: what a fresh scan of the words at a place does;
* `Draft.insertText_spec` and `Draft.newline_spec`: what the whole of an insertion and of Enter do.

In the latter two the outcome is described by *one* scan, which starts behind `x₀`.  They need that
the tags of `w` tell the right state, since white space at the beginning of the insertion makes the
first of several scans start behind `w`.
-/

namespace MetaPostEditor

/-! ## Words -/

/-- No word is open at the end of the text. -/
def Closed (a : List Char) : Prop :=
  ∀ c, a.getLast? = some c → Unicode.isWhiteSpace c = true

/-- There is no white space in the text. -/
def Solid (w : List Char) : Prop :=
  ∀ c ∈ w, Unicode.isWhiteSpace c = false

instance (a : List Char) : Decidable (Closed a) :=
  a.getLast?.decidableForallMem

instance (w : List Char) : Decidable (Solid w) :=
  List.decidableBAll _ w

lemma solid_nil : Solid [] := by simp [Solid]

lemma Closed.seam {a : List Char} (h : Closed a) (b : List Char) : Seam a b :=
  fun c _ hc _ => Or.inl (h c hc)

lemma closed_append_of_endsBlank {a b : List Char} (h : Text.endsBlank b = true) :
    Closed (a ++ b) := by
  intro c hc
  rcases List.eq_nil_or_concat b with rfl | ⟨b', d, rfl⟩
  · simp [Text.endsBlank] at h
  · simp only [List.concat_eq_append, ← List.append_assoc, List.getLast?_append,
      List.getLast?_singleton, Option.some_or, Option.some.injEq] at hc
    subst hc
    simpa [Text.endsBlank] using h

lemma Closed.append_of_isWhiteSpace {a b : List Char} (h : Closed a)
    (hb : ∀ c ∈ b, Unicode.isWhiteSpace c = true) : Closed (a ++ b) := by
  intro c hc
  rw [List.getLast?_append] at hc
  rcases Option.or_eq_some_iff.1 hc with hlast | ⟨-, hlast⟩
  · exact hb c (List.mem_of_getLast? hlast)
  · exact h c hlast

/-- Every text ends in a word, which may be empty. -/
lemma exists_closed_solid (x : List Cell) :
    ∃ x₀ w, x = x₀ ++ w ∧ Closed (textOf x₀) ∧ Solid (textOf w) := by
  let p : Cell → Bool := fun cell => !Unicode.isWhiteSpace cell.char
  refine ⟨x.rdropWhile p, x.rtakeWhile p, List.rdropWhile_append_rtakeWhile.symm, ?_, ?_⟩
  · intro c hc
    rw [textOf, List.getLast?_map, Option.map_eq_some_iff] at hc
    obtain ⟨cell, hcell, rfl⟩ := hc
    have hne : x.rdropWhile p ≠ [] := by
      rintro hnil
      simp [hnil] at hcell
    have hlast := List.rdropWhile_last_not p x hne
    rw [List.getLast?_eq_some_getLast hne, Option.some.injEq] at hcell
    rw [hcell] at hlast
    simpa [p] using hlast
  · intro c hc
    rw [textOf, List.mem_map] at hc
    obtain ⟨cell, hcell, rfl⟩ := hc
    simpa [p] using List.mem_rtakeWhile_imp hcell

/-! ## How far an insertion reaches -/

/-- Where an insertion before a text stops being felt: at the end of the line if comments are
shown, else at white space. -/
def stops (comments : Bool) (c : Char) : Bool :=
  if comments then c == '\n' else Unicode.isWhiteSpace c

/-- The part of a text that an insertion before it can touch. -/
def reach (comments : Bool) (text : List Char) : List Char :=
  text.takeWhile fun c => !stops comments c

lemma isWhiteSpace_newline : Unicode.isWhiteSpace '\n' = true := by decide

lemma isWhiteSpace_of_stops {comments : Bool} {c : Char} (h : stops comments c = true) :
    Unicode.isWhiteSpace c = true := by
  cases comments with
  | false => exact h
  | true =>
    have hc : c = '\n' := by simpa [stops] using h
    rw [hc, isWhiteSpace_newline]

lemma stops_newline (comments : Bool) : stops comments '\n' = true := by
  cases comments with
  | true => rfl
  | false => exact isWhiteSpace_newline

/-- The text behind the reach of an insertion. -/
lemma exists_reach (comments : Bool) (text : List Char) :
    ∃ rest, text = reach comments text ++ rest ∧
      ∀ c, rest.head? = some c → stops comments c = true := by
  refine ⟨text.dropWhile fun c => !stops comments c, List.takeWhile_append_dropWhile.symm, ?_⟩
  intro c hc
  have hnot := List.head?_dropWhile_not (fun c => !stops comments c) text
  rw [hc] at hnot
  simpa using hnot

lemma seam_of_stops {comments : Bool} {rest : List Char}
    (h : ∀ c, rest.head? = some c → stops comments c = true) (a : List Char) : Seam a rest :=
  fun _ d _ hd => Or.inr (isWhiteSpace_of_stops (h d hd))

/-- A text that starts with a stop is out of reach, and so is what follows it. -/
lemma reach_append_of_stops {comments : Bool} (t : List Char) {u : List Char}
    (h : ∀ c, u.head? = some c → stops comments c = true) :
    reach comments (t ++ u) = reach comments t := by
  induction t with
  | nil =>
    cases u with
    | nil => rfl
    | cons c u => simp [reach, h c rfl]
  | cons c t ih =>
    simp only [reach, List.cons_append, List.takeWhile_cons] at ih ⊢
    rw [ih]

lemma reach_of_head {comments : Bool} {c : Char} (h : stops comments c = true)
    (text : List Char) : reach comments (c :: text) = [] := by
  simp [reach, h]

/-- How much of the text behind the place is scanned with an insertion. -/
def rightOf (comments : Bool) (inserted text : List Char) : List Char :=
  if comments || !Text.endsBlank inserted then reach comments text else []

lemma rightOf_eq (comments : Bool) (inserted text : List Char) :
    (if comments then text.takeWhile fun c => c != '\n'
      else if Text.endsBlank inserted then []
      else text.takeWhile fun c => !Unicode.isWhiteSpace c) = rightOf comments inserted text := by
  cases comments with
  | true => rfl
  | false => cases h : Text.endsBlank inserted <;> simp [rightOf, h, reach, stops]

lemma rightOf_isPrefix_reach (comments : Bool) (inserted text : List Char) :
    rightOf comments inserted text <+: reach comments text := by
  rw [rightOf]
  split
  · exact List.prefix_rfl
  · exact List.nil_prefix

lemma drop_reach (comments : Bool) (text : List Char) :
    ∀ c, (text.drop (reach comments text).length).head? = some c → stops comments c = true := by
  obtain ⟨rest, hrest, hstop⟩ := exists_reach comments text
  have hdrop : text.drop (reach comments text).length = rest := by
    generalize reach comments text = r at hrest
    rw [hrest, List.drop_left]
  rwa [hdrop]

/-- Where the insertion starts with white space, its own reach ends in what is scanned with it. -/
lemma reach_rightOf (comments : Bool) {inserted : List Char}
    (hins : Text.startsBlank inserted = true) (text : List Char) :
    reach comments (inserted ++ rightOf comments inserted text ++
        text.drop (rightOf comments inserted text).length) =
      reach comments (inserted ++ rightOf comments inserted text) := by
  cases comments with
  | true => exact reach_append_of_stops _ (drop_reach true text)
  | false =>
    cases inserted with
    | nil => simp [Text.startsBlank] at hins
    | cons c rest =>
      have hc : stops false c = true := by simpa [Text.startsBlank, stops] using hins
      simp only [List.cons_append, reach_of_head hc]

/-! ## Widening in pieces -/

lemma widen_eq (a b inserted : List Char) (comments : Bool) :
    widen (a ++ b) a.length inserted comments =
      { start := a.length - (if Text.startsBlank inserted then []
          else (a.reverse.takeWhile fun c => !Unicode.isWhiteSpace c).reverse).length
        stop := a.length + (rightOf comments inserted b).length
        left := if Text.startsBlank inserted then []
          else (a.reverse.takeWhile fun c => !Unicode.isWhiteSpace c).reverse
        right := rightOf comments inserted b } := by
  rw [widen, List.take_left, List.drop_left]
  simp only [rightOf_eq]

lemma takeWhile_reverse_of_solid {a w : List Char} (ha : Closed a) (hw : Solid w) :
    ((a ++ w).reverse.takeWhile fun c => !Unicode.isWhiteSpace c).reverse = w := by
  have hword : ∀ c ∈ w.reverse, (!Unicode.isWhiteSpace c) = true := by
    intro c hc
    rw [hw c (by simpa using hc)]
    rfl
  rw [List.reverse_append, List.takeWhile_append_of_pos hword]
  rcases List.eq_nil_or_concat a with rfl | ⟨a', c, rfl⟩
  · simp
  · have hc : Unicode.isWhiteSpace c = true := ha c (by simp)
    simp [hc]

/-- An insertion that starts with a word goes back to the beginning of the word it touches. -/
lemma widen_word {a w : List Char} (ha : Closed a) (hw : Solid w) (b : List Char)
    {inserted : List Char} (hins : Text.startsBlank inserted = false) (comments : Bool) :
    widen (a ++ w ++ b) (a ++ w).length inserted comments =
      ⟨a.length, (a ++ w).length + (rightOf comments inserted b).length, w,
        rightOf comments inserted b⟩ := by
  rw [widen_eq, takeWhile_reverse_of_solid ha hw]
  simp [hins]

/-- An insertion that starts with white space does not touch the text before it. -/
lemma widen_blank (a b : List Char) {inserted : List Char}
    (hins : Text.startsBlank inserted = true) (comments : Bool) :
    widen (a ++ b) a.length inserted comments =
      ⟨a.length, a.length + (rightOf comments inserted b).length, [],
        rightOf comments inserted b⟩ := by
  rw [widen_eq]
  simp [hins]

lemma reach_eq_take (comments : Bool) (text : List Char) :
    text.take (reach comments text).length = reach comments text :=
  (List.prefix_iff_eq_take.1 (List.takeWhile_prefix _)).symm

lemma reach_append_drop (comments : Bool) (text : List Char) :
    reach comments text ++ text.drop (reach comments text).length = text := by
  conv => lhs; lhs; rw [← reach_eq_take]
  exact List.take_append_drop _ _

lemma rightOf_eq_take (comments : Bool) (inserted text : List Char) :
    text.take (rightOf comments inserted text).length = rightOf comments inserted text := by
  rw [rightOf]
  split
  · exact reach_eq_take comments text
  · rfl

namespace Draft

variable {d : Draft}

/-- What an insertion does, once the place is widened. -/
lemma insert_of_widen {comments : Bool} {x₀ w r y : List Cell} {inserted : List Char}
    (h : d.buffer.cells = x₀ ++ w ++ (r ++ y))
    (hw : widen d.buffer.text (x₀ ++ w).length inserted comments =
      ⟨x₀.length, (x₀ ++ w).length + r.length, textOf w, textOf r⟩) :
    ∃ d', d.insert comments (x₀ ++ w).length inserted =
        .ok (d', (x₀ ++ w).length + inserted.length) ∧ d.Grows d' ∧
      d'.buffer.cells =
        x₀ ++ classify comments (carryOf x₀) (textOf w ++ inserted ++ textOf r) ++ y := by
  have hsplit : d.buffer.cells = x₀ ++ (w ++ r) ++ y := by rw [h]; simp
  have hstate : d.buffer.stateAt x₀.length = carryOf x₀ := by
    rw [Buffer.stateAt_eq_carryOf, h, List.append_assoc, List.take_left]
  obtain ⟨d', hd', hgrows, hcells⟩ := replace_split hsplit comments (carryOf x₀)
    (textOf w ++ inserted ++ textOf r)
  refine ⟨d', ?_, hgrows, hcells⟩
  have hstop : (x₀ ++ w).length + r.length = x₀.length + (w ++ r).length := by
    simp only [List.length_append]
    omega
  rw [insert, hw, hstop]
  simp only [Widening.splice, scanAt, hstate, hd', bind, Except.bind]
  simp only [pure, Except.pure, Except.ok.injEq, Prod.mk.injEq, true_and, List.length_append,
    length_textOf]
  omega

lemma rightOf_append_drop (comments : Bool) (inserted text : List Char) :
    rightOf comments inserted text ++ text.drop (rightOf comments inserted text).length = text := by
  conv => lhs; lhs; rw [← rightOf_eq_take]
  exact List.take_append_drop _ _

/-- The right side of a place in pieces. -/
lemma textOf_take_rightOf (comments : Bool) (inserted : List Char) (y : List Cell) :
    textOf (y.take (rightOf comments inserted (textOf y)).length) =
      rightOf comments inserted (textOf y) := by
  rw [textOf_take, rightOf_eq_take]

lemma length_take_rightOf (comments : Bool) (inserted : List Char) (y : List Cell) :
    (y.take (rightOf comments inserted (textOf y)).length).length =
      (rightOf comments inserted (textOf y)).length := by
  rw [← length_textOf, textOf_take_rightOf]

/-- An insertion that does not start with white space scans the word before it again. -/
lemma insert_word_spec {x₀ w y : List Cell} (h : d.buffer.cells = x₀ ++ w ++ y)
    (hx : Closed (textOf x₀)) (hw : Solid (textOf w)) {inserted : List Char}
    (hins : Text.startsBlank inserted = false) (comments : Bool) :
    ∃ d', d.insert comments (x₀ ++ w).length inserted =
        .ok (d', (x₀ ++ w).length + inserted.length) ∧ d.Grows d' ∧
      d'.buffer.cells = x₀ ++ classify comments (carryOf x₀)
          (textOf w ++ inserted ++ rightOf comments inserted (textOf y)) ++
        y.drop (rightOf comments inserted (textOf y)).length := by
  let n := (rightOf comments inserted (textOf y)).length
  have hsplit : d.buffer.cells = x₀ ++ w ++ (y.take n ++ y.drop n) := by
    rw [List.take_append_drop, h]
  have hwiden := widen_word hx hw (textOf y) hins comments
  have hplace : (textOf x₀ ++ textOf w).length = (x₀ ++ w).length := by simp
  rw [hplace, length_textOf, ← textOf_append, ← textOf_append, ← h, ← Buffer.text_eq] at hwiden
  obtain ⟨d', hd', hgrows, hcells⟩ := insert_of_widen hsplit (by
    rw [hwiden, length_take_rightOf, textOf_take_rightOf])
  refine ⟨d', hd', hgrows, ?_⟩
  rw [hcells, textOf_take_rightOf]

/-- An insertion that starts with white space is scanned from the place on. -/
lemma insert_blank_spec {x y : List Cell} (h : d.buffer.cells = x ++ y) {inserted : List Char}
    (hins : Text.startsBlank inserted = true) (comments : Bool) :
    ∃ d', d.insert comments x.length inserted = .ok (d', x.length + inserted.length) ∧
      d.Grows d' ∧
      d'.buffer.cells = x ++ classify comments (carryOf x)
          (inserted ++ rightOf comments inserted (textOf y)) ++
        y.drop (rightOf comments inserted (textOf y)).length := by
  let n := (rightOf comments inserted (textOf y)).length
  have hsplit : d.buffer.cells = x ++ [] ++ (y.take n ++ y.drop n) := by
    rw [List.take_append_drop, List.append_nil, h]
  have hwiden := widen_blank (textOf x) (textOf y) hins comments
  rw [length_textOf, ← textOf_append, ← h, ← Buffer.text_eq] at hwiden
  obtain ⟨d', hd', hgrows, hcells⟩ := insert_of_widen hsplit (by
    rw [List.append_nil, hwiden, length_take_rightOf, textOf_take_rightOf, textOf_nil])
  rw [List.append_nil] at hd'
  refine ⟨d', hd', hgrows, ?_⟩
  rw [hcells, textOf_take_rightOf, textOf_nil, List.nil_append]

/-- An insertion of nothing scans the word at the place again, to the end of the reach. -/
lemma insert_nil_spec {x₀ w y : List Cell} (h : d.buffer.cells = x₀ ++ w ++ y)
    (hx : Closed (textOf x₀)) (hw : Solid (textOf w)) (comments : Bool) :
    ∃ d', d.insert comments (x₀ ++ w).length [] = .ok (d', (x₀ ++ w).length) ∧ d.Grows d' ∧
      d'.buffer.cells =
        x₀ ++ classify comments (carryOf x₀) (textOf w ++ reach comments (textOf y)) ++
          y.drop (reach comments (textOf y)).length := by
  have hnil : Text.startsBlank [] = false := rfl
  obtain ⟨d', hd', hgrows, hcells⟩ := insert_word_spec h hx hw hnil comments
  have hright : rightOf comments [] (textOf y) = reach comments (textOf y) := by
    simp [rightOf, Text.endsBlank]
  rw [hright, List.append_nil] at hcells
  exact ⟨d', hd', hgrows, hcells⟩

/-- A fresh scan at a place goes from the beginning of the word there to the end of the reach. -/
lemma refresh_spec {x₀ w y : List Cell} (h : d.buffer.cells = x₀ ++ w ++ y)
    (hx : Closed (textOf x₀)) (hw : Solid (textOf w)) (comments : Bool) :
    ∃ d', d.refresh comments (x₀ ++ w).length = .ok d' ∧ d.Grows d' ∧
      d'.buffer.text = d.buffer.text ∧
      d'.buffer.cells =
        x₀ ++ classify comments (carryOf x₀) (textOf w ++ reach comments (textOf y)) ++
          y.drop (reach comments (textOf y)).length := by
  obtain ⟨d', hd', hgrows, hcells⟩ := insert_nil_spec h hx hw comments
  refine ⟨d', ?_, hgrows, ?_, hcells⟩
  · rw [refresh, hd']
    rfl
  · rw [Buffer.text_eq, Buffer.text_eq, hcells, h]
    simp [textOf_drop, reach_append_drop]

/-- A fresh scan leaves the text as it is. -/
lemma refresh_text {position : Nat} (h : position ≤ d.buffer.length) (comments : Bool) :
    ∃ d', d.refresh comments position = .ok d' ∧ d.Grows d' ∧
      d'.buffer.text = d.buffer.text := by
  obtain ⟨x₀, w, hxw, hx, hw⟩ := exists_closed_solid (d.buffer.cells.take position)
  have hsplit : d.buffer.cells = x₀ ++ w ++ d.buffer.cells.drop position := by
    rw [← hxw, List.take_append_drop]
  have hlen : (x₀ ++ w).length = position := by
    rw [← hxw, List.length_take_of_le h]
  obtain ⟨d', hd', hgrows, htext, -⟩ := refresh_spec hsplit hx hw comments
  rw [hlen] at hd'
  exact ⟨d', hd', hgrows, htext⟩

end Draft

/-! ## Several scans are one -/

lemma Scanner.State.carry_carry (s : Scanner.State) : s.carry.carry = s.carry := by
  cases s <;> rfl

lemma carry_carryOf (x : List Cell) : (carryOf x).carry = carryOf x := by
  have hafter : ∀ tag, (Scanner.State.after tag).carry = Scanner.State.after tag := by
    intro tag
    match tag with
    | none => rfl
    | some tag => cases tag <;> rfl
  have hacross : ∀ tag, (Scanner.State.after tag).acrossQuote.carry =
      (Scanner.State.after tag).acrossQuote := by
    intro tag
    match tag with
    | none => rfl
    | some tag => cases tag <;> rfl
  rw [carryOf]
  split
  · exact hafter _
  · exact hacross _

/-- A text `t` has been scanned from the state behind `w`.  Scanning `w` and what is in reach behind
it gives what one scan of `w` and `t` gives. -/
lemma classify_rescan {comments : Bool} {p q : Scanner.State} {w : List Char}
    (hp : p.carry = (q.run comments w).carry) (t : List Char) (y : List Cell) :
    classify comments q (w ++ reach comments t) ++
        (classify comments p t ++ y).drop (reach comments t).length =
      classify comments q (w ++ t) ++ y := by
  obtain ⟨rest, ht, hstop⟩ := exists_reach comments t
  generalize reach comments t = r at ht
  subst ht
  have hseam := seam_of_stops hstop
  rw [classify_append (hseam r), List.append_assoc (classify comments p r),
    List.drop_left' (length_classify comments p r), ← List.append_assoc w r rest,
    classify_append (hseam (w ++ r)), List.append_assoc, Scanner.State.run_append]
  congr 2
  exact classify_of_carry_eq (Scanner.State.run_carry_of_carry_eq hp comments r) comments rest

namespace Draft

variable {d : Draft}

/-- After an insertion that starts with white space the word before it is scanned again. -/
lemma refresh_left {comments : Bool} {x₀ w y : List Cell} {t : List Char}
    (h : d.buffer.cells = x₀ ++ w ++ (classify comments (carryOf (x₀ ++ w)) t ++ y))
    (hx : Closed (textOf x₀)) (hw : Solid (textOf w))
    (hreach : reach comments (t ++ textOf y) = reach comments t) :
    ∃ d', d.refresh comments (x₀ ++ w).length = .ok d' ∧ d.Grows d' ∧
      d'.buffer.text = d.buffer.text ∧
      (carryOf (x₀ ++ w) = ((carryOf x₀).run comments (textOf w)).carry →
        d'.buffer.cells = x₀ ++ classify comments (carryOf x₀) (textOf w ++ t) ++ y) := by
  obtain ⟨d', hd', hgrows, htext, hcells⟩ := refresh_spec h hx hw comments
  refine ⟨d', hd', hgrows, htext, fun hcarry => ?_⟩
  rw [hcells, textOf_append, textOf_classify, hreach, List.append_assoc, List.append_assoc]
  congr 1
  refine classify_rescan ?_ t y
  rw [hcarry, Scanner.State.carry_carry]

/-- Where the beginning of a text has been replaced, the rest is what it was. -/
lemma drop_append_drop {p y : List Cell} {n : Nat} (h : p.length ≤ n) :
    (p ++ y.drop p.length).drop n = y.drop n := by
  rw [List.drop_append, List.drop_eq_nil_of_le h, List.nil_append, List.drop_drop,
    Nat.add_sub_cancel' h]

/-- After an insertion that ends with white space the text behind it is scanned again, as far as
the insertion reaches.  A part `r` of it may have been scanned with the insertion. -/
lemma refresh_right {comments : Bool} {x₀ y : List Cell} {t r : List Char}
    (h : d.buffer.cells = x₀ ++ classify comments (carryOf x₀) (t ++ r) ++ y.drop r.length)
    (hr : r <+: reach comments (textOf y)) (hq : (carryOf x₀).Possible comments)
    (ht : Text.endsBlank t = true) :
    ∃ d', d.refresh comments (x₀.length + t.length) = .ok d' ∧ d.Grows d' ∧
      d'.buffer.cells = x₀ ++ classify comments (carryOf x₀) (t ++ reach comments (textOf y)) ++
        y.drop (reach comments (textOf y)).length := by
  let x₁ := x₀ ++ classify comments (carryOf x₀) t
  let y₁ := classify comments ((carryOf x₀).run comments t) r ++ y.drop r.length
  have hsplit : d.buffer.cells = x₁ ++ [] ++ y₁ := by
    rw [h, classify_append (seam_of_endsBlank ht r)]
    simp [x₁, y₁]
  have hclosed : Closed (textOf x₁) := by
    simpa [x₁] using closed_append_of_endsBlank ht
  have hlen : (x₁ ++ []).length = x₀.length + t.length := by simp [x₁]
  have htext : textOf y₁ = textOf y := by
    obtain ⟨u, hu⟩ := hr.trans (List.takeWhile_prefix _)
    rw [textOf_append, textOf_classify, textOf_drop, ← hu, List.drop_left]
  have hcarry : carryOf x₁ = ((carryOf x₀).run comments t).carry :=
    carryOf_append_classify hq (carry_carryOf x₀).symm t
  have hdrop : y₁.drop (reach comments (textOf y)).length =
      y.drop (reach comments (textOf y)).length := by
    have hdrop := drop_append_drop (p := classify comments ((carryOf x₀).run comments t) r) (y := y)
      (by simpa using hr.length_le)
    rwa [length_classify] at hdrop
  obtain ⟨d', hd', hgrows, -, hcells⟩ := refresh_spec hsplit hclosed solid_nil comments
  rw [hlen] at hd'
  refine ⟨d', hd', hgrows, ?_⟩
  rw [hcells, htext, hdrop, hcarry, textOf_nil, List.nil_append,
    classify_of_carry_eq (Scanner.State.carry_carry _), classify_append (seam_of_endsBlank ht _)]
  simp [x₁]

/-! ## Insertions and Enter as a whole -/

/-- The last step of an insertion that ends with white space. -/
lemma refresh_end {comments : Bool} {x₀ w y : List Cell} {inserted r : List Char}
    (htext : d.buffer.text = textOf (x₀ ++ w) ++ inserted ++ textOf y)
    (hr : r <+: reach comments (textOf y)) (hend : Text.endsBlank inserted = true) :
    ∃ d', d.refresh comments ((x₀ ++ w).length + inserted.length) = .ok d' ∧ d.Grows d' ∧
      d'.buffer.text = d.buffer.text ∧
      (d.buffer.cells = x₀ ++ classify comments (carryOf x₀) (textOf w ++ inserted ++ r) ++
          y.drop r.length →
        (carryOf x₀).Possible comments →
        d'.buffer.cells = x₀ ++ classify comments (carryOf x₀)
            (textOf w ++ inserted ++ reach comments (textOf y)) ++
          y.drop (reach comments (textOf y)).length) := by
  have hplace : (x₀ ++ w).length + inserted.length ≤ d.buffer.length := by
    rw [← Buffer.length_text, htext]
    simp only [List.length_append, length_textOf]
    omega
  obtain ⟨d', hd', hgrows, hsame⟩ := refresh_text hplace comments
  refine ⟨d', hd', hgrows, hsame, fun hcells hq => ?_⟩
  have hblank : Text.endsBlank (textOf w ++ inserted) = true := by
    rcases List.eq_nil_or_concat inserted with rfl | ⟨a, c, rfl⟩
    · simp [Text.endsBlank] at hend
    · simpa [Text.endsBlank] using hend
  have hlen : x₀.length + (textOf w ++ inserted).length =
      (x₀ ++ w).length + inserted.length := by
    simp only [List.length_append, length_textOf]
    omega
  obtain ⟨d'', hd'', -, hcells''⟩ := refresh_right hcells hr hq hblank
  rw [hlen, hd', Except.ok.injEq] at hd''
  rw [hd'', hcells'']

/-- The first steps of an insertion: the text is put in, and the word before it is brought up to
date. -/
lemma insertText_start (comments : Bool) {x₀ w y : List Cell}
    (h : d.buffer.cells = x₀ ++ w ++ y)
    (hx : Closed (textOf x₀)) (hw : Solid (textOf w)) (inserted : List Char) :
    ∃ d₁ d₂, d.insert comments (x₀ ++ w).length inserted =
        .ok (d₁, (x₀ ++ w).length + inserted.length) ∧
      (if Text.startsBlank inserted then d₁.refresh comments (x₀ ++ w).length else pure d₁) =
        .ok d₂ ∧
      d.Grows d₂ ∧ d₂.buffer.text = textOf (x₀ ++ w) ++ inserted ++ textOf y ∧
      (carryOf (x₀ ++ w) = ((carryOf x₀).run comments (textOf w)).carry →
        d₂.buffer.cells = x₀ ++ classify comments (carryOf x₀)
            (textOf w ++ inserted ++ rightOf comments inserted (textOf y)) ++
          y.drop (rightOf comments inserted (textOf y)).length) := by
  cases hins : Text.startsBlank inserted with
  | false =>
    obtain ⟨d₁, hd₁, hgrows, hcells⟩ := insert_word_spec h hx hw hins comments
    refine ⟨d₁, d₁, hd₁, rfl, hgrows, ?_, fun _ => hcells⟩
    rw [Buffer.text_eq, hcells]
    simp [textOf_drop, rightOf_append_drop]
  | true =>
    obtain ⟨d₁, hd₁, hgrows₁, hcells₁⟩ := insert_blank_spec h hins comments
    have htext₁ : d₁.buffer.text = textOf (x₀ ++ w) ++ inserted ++ textOf y := by
      rw [Buffer.text_eq, hcells₁]
      simp [textOf_drop, rightOf_append_drop]
    rw [List.append_assoc (x₀ ++ w)] at hcells₁
    have hreach := reach_rightOf comments hins (textOf y)
    rw [← textOf_drop] at hreach
    obtain ⟨d₂, hd₂, hgrows₂, htext₂, hcells₂⟩ := refresh_left hcells₁ hx hw hreach
    refine ⟨d₁, d₂, hd₁, hd₂, hgrows₁.trans hgrows₂, htext₂.trans htext₁, fun hcarry => ?_⟩
    rw [hcells₂ hcarry, List.append_assoc (textOf w)]

lemma insertText_of_steps {comments : Bool} {position caret : Nat} {inserted : List Char}
    {d₁ d₂ d₃ : Draft} (h₁ : d.insert comments position inserted = .ok (d₁, caret))
    (h₂ : (if Text.startsBlank inserted then d₁.refresh comments position else pure d₁) = .ok d₂)
    (h₃ : (if Text.endsBlank inserted then d₂.refresh comments (position + inserted.length)
      else pure d₂) = .ok d₃) :
    d.insertText comments position inserted = .ok (d₃, caret) := by
  rw [insertText, h₁]
  simp only [bind, Except.bind]
  -- a scan that is not wanted leaves the draft as it is
  cases hstart : Text.startsBlank inserted <;> cases hend : Text.endsBlank inserted <;>
    simp only [hstart, hend, if_true, Bool.false_eq_true, if_false, pure, Except.pure,
      Except.ok.injEq] at h₂ h₃ ⊢ <;>
    simp only [h₂, h₃]

/-- **An insertion.**  It always succeeds and puts its text in.  If the tags of the word before it
tell the right state, its several scans come to one, from the beginning of that word to the end of
the reach. -/
lemma insertText_spec {x₀ w y : List Cell} (h : d.buffer.cells = x₀ ++ w ++ y)
    (hx : Closed (textOf x₀)) (hw : Solid (textOf w)) (comments : Bool) (inserted : List Char) :
    ∃ d', d.insertText comments (x₀ ++ w).length inserted =
        .ok (d', (x₀ ++ w).length + inserted.length) ∧
      d.Grows d' ∧ d'.buffer.text = textOf (x₀ ++ w) ++ inserted ++ textOf y ∧
      (carryOf (x₀ ++ w) = ((carryOf x₀).run comments (textOf w)).carry →
        (carryOf x₀).Possible comments →
        d'.buffer.cells = x₀ ++ classify comments (carryOf x₀)
            (textOf w ++ inserted ++ reach comments (textOf y)) ++
          y.drop (reach comments (textOf y)).length) := by
  obtain ⟨d₁, d₂, hd₁, hd₂, hgrows₂, htext₂, hcells₂⟩ :=
    insertText_start comments h hx hw inserted
  cases hins : Text.endsBlank inserted with
  | false =>
    refine ⟨d₂, ?_, hgrows₂, htext₂, fun hcarry _ => ?_⟩
    · exact insertText_of_steps hd₁ hd₂ (by rw [hins]; rfl)
    · have hright : rightOf comments inserted (textOf y) = reach comments (textOf y) := by
        simp [rightOf, hins]
      rw [hcells₂ hcarry, hright]
  | true =>
    have hr := rightOf_isPrefix_reach comments inserted (textOf y)
    obtain ⟨d₃, hd₃, hgrows₃, htext₃, hcells₃⟩ := refresh_end htext₂ hr hins
    exact ⟨d₃, insertText_of_steps hd₁ hd₂ (by rw [hins]; exact hd₃), hgrows₂.trans hgrows₃,
      htext₃.trans htext₂, fun hcarry hq => hcells₃ (hcells₂ hcarry) hq⟩

lemma newline_of_steps {comments : Bool} {x y : List Cell} (h : d.buffer.cells = x ++ y)
    {inserted : List Char} (hins : inserted = '\n' :: Indentation.before d.buffer.text x.length)
    {d₁ d₂ d₃ : Draft}
    (h₁ : d.replace x.length x.length (tokenize comments (carryOf x) inserted) = .ok d₁)
    (h₂ : d₁.refresh comments x.length = .ok d₂)
    (h₃ : d₂.refresh comments (x.length + inserted.length) = .ok d₃) :
    d.newline comments x.length = .ok (d₃, x.length + inserted.length) := by
  have hstate : d.buffer.stateAt x.length = carryOf x := by
    rw [Buffer.stateAt_eq_carryOf, h, List.take_left]
  rw [newline, ← hins, scanAt, hstate]
  simp only [h₁, bind, Except.bind, h₂, h₃]
  rfl

/-- The first step of Enter.  The text behind the place is out of its reach. -/
lemma newline_start {x y : List Cell} (h : d.buffer.cells = x ++ y) (comments : Bool)
    {inserted indent : List Char} (hins : inserted = '\n' :: indent) :
    ∃ d₁, d.replace x.length x.length (tokenize comments (carryOf x) inserted) = .ok d₁ ∧
      d.Grows d₁ ∧ d₁.buffer.cells = x ++ (classify comments (carryOf x) inserted ++ y) ∧
      reach comments (inserted ++ textOf y) = reach comments inserted := by
  have hsplit : d.buffer.cells = x ++ [] ++ y := by rw [h, List.append_nil]
  obtain ⟨d₁, hd₁, hgrows, hcells⟩ := replace_split hsplit comments (carryOf x) inserted
  rw [List.length_nil, Nat.add_zero] at hd₁
  refine ⟨d₁, hd₁, hgrows, by rw [hcells, List.append_assoc], ?_⟩
  have hstop := stops_newline comments
  rw [hins, List.cons_append, reach_of_head hstop, reach_of_head hstop]

/-- **Enter.**  It breaks the line and repeats its indentation; what the scans do is as for an
insertion. -/
lemma newline_spec {x₀ w y : List Cell} (h : d.buffer.cells = x₀ ++ w ++ y)
    (hx : Closed (textOf x₀)) (hw : Solid (textOf w)) (comments : Bool) {inserted : List Char}
    (hins : inserted = '\n' :: Indentation.before d.buffer.text (x₀ ++ w).length)
    (hend : Text.endsBlank inserted = true) :
    ∃ d', d.newline comments (x₀ ++ w).length =
        .ok (d', (x₀ ++ w).length + inserted.length) ∧
      d.Grows d' ∧ d'.buffer.text = textOf (x₀ ++ w) ++ inserted ++ textOf y ∧
      (carryOf (x₀ ++ w) = ((carryOf x₀).run comments (textOf w)).carry →
        (carryOf x₀).Possible comments →
        d'.buffer.cells = x₀ ++ classify comments (carryOf x₀)
            (textOf w ++ inserted ++ reach comments (textOf y)) ++
          y.drop (reach comments (textOf y)).length) := by
  obtain ⟨d₁, hd₁, hgrows₁, hcells₁, hreach⟩ := newline_start h comments hins
  obtain ⟨d₂, hd₂, hgrows₂, htext₂, hcells₂⟩ := refresh_left hcells₁ hx hw hreach
  have htext : d₂.buffer.text = textOf (x₀ ++ w) ++ inserted ++ textOf y := by
    rw [htext₂, Buffer.text_eq, hcells₁]
    simp
  obtain ⟨d₃, hd₃, hgrows₃, htext₃, hcells₃⟩ :=
    refresh_end htext (List.nil_prefix : [] <+: reach comments (textOf y)) hend
  refine ⟨d₃, newline_of_steps h hins hd₁ hd₂ hd₃, (hgrows₁.trans hgrows₂).trans hgrows₃,
    htext₃.trans htext, fun hcarry hq => hcells₃ ?_ hq⟩
  simpa using hcells₂ hcarry

end Draft
end MetaPostEditor
