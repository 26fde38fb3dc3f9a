import MetaPostEditor.Proofs.EditedText
import MetaPostEditor.Proofs.WholeWords
import Mathlib.Order.Bounds.Basic

/-!
# The edges of a widened place

The place of an insertion is widened by reading the text from the place to the left and to the
right, up to the first character that stops the one or the other.  This file says where that ends by
offsets and ranges of the buffer alone.  To the left, and to the right where comments are not shown,
the widened piece is as large as it can be without white space in it (`Buffer.SolidRange`).

A range of a buffer cuts its text into three pieces (`Buffer.slice?_eq_some_iff`), and a widened
place cuts it into four (`Widening.Cuts`).  That an edge lies as far out as it can is seen from the
one character beyond it: a larger range would hold that character too.  The main result,
`widen_exactly`, puts both edges together, for every place and every inserted text.
-/

namespace MetaPostEditor

/-! ## Ranges as pieces of the text -/

namespace Buffer

variable {b : Buffer} {i j : Nat} {t : List Char}

lemma charAt?_eq (b : Buffer) (offset : Nat) : b.charAt? offset = b.text[offset]? := by
  rw [charAt?, text, List.getElem?_map]

/-- The text of a range is a piece of the text, with the range at its place. -/
lemma slice?_eq_some_iff :
    b.slice? i j = some t ↔
      ∃ x y, b.text = x ++ t ++ y ∧ i = x.length ∧ j = (x ++ t).length := by
  constructor
  · intro h
    by_cases hrange : i ≤ j ∧ j ≤ b.length
    · rw [slice?, checkRange_eq_ok hrange.1 hrange.2, Option.some.injEq, cellsIn,
        List.map_drop, List.map_take, ← text] at h
      have hj : (b.text.take j).length = j := List.length_take_of_le (by simpa using hrange.2)
      have hi : ((b.text.take j).take i).length = i := List.length_take_of_le (by omega)
      refine ⟨(b.text.take j).take i, b.text.drop j, ?_, hi.symm, ?_⟩
      · rw [← h, List.take_append_drop, List.take_append_drop]
      · rw [← h, List.take_append_drop, hj]
    · rw [slice?, checkRange, if_neg hrange] at h
      cases h
  · rintro ⟨x, y, htext, rfl, rfl⟩
    have hlength := congrArg List.length htext
    rw [length_text, List.length_append] at hlength
    rw [slice?, checkRange_eq_ok (by simp) (by omega), cellsIn, Option.some.injEq, List.map_drop,
      List.map_take, ← text, htext, List.take_left, List.drop_left]

/-- The range lies in the text, and there is no white space in it. -/
def SolidRange (b : Buffer) (i j : Nat) : Prop :=
  ∃ t, b.slice? i j = some t ∧ Solid t

/-! ## The first character beyond an edge -/

/-- A word that starts behind white space, or at the start of the text, starts as early as a range
without white space can. -/
lemma isLeast_of_closed {a u y : List Char} (htext : b.text = a ++ u ++ y) (ha : Closed a)
    (hu : Solid u) : IsLeast {i | b.SolidRange i (a ++ u).length} a.length := by
  constructor
  · exact ⟨u, slice?_eq_some_iff.2 ⟨a, y, htext, rfl, rfl⟩, hu⟩
  · rintro i ⟨t, ht, hsolid⟩
    obtain ⟨x, y', htext', rfl, hlength⟩ := slice?_eq_some_iff.1 ht
    have hsame : a ++ u = x ++ t := (List.append_inj (htext.symm.trans htext') hlength).1
    rcases List.append_eq_append_iff.1 hsame with ⟨q, rfl, -⟩ | ⟨q, rfl, rfl⟩
    · simp
    · -- the range starts before the word, and `q` is what it holds too much
      rcases List.eq_nil_or_concat q with rfl | ⟨q', c, rfl⟩
      · simp
      · have hblank : Unicode.isWhiteSpace c = true := ha c (by simp)
        rw [hsolid c (by simp)] at hblank
        exact absurd hblank Bool.false_ne_true

/-- A word with white space behind it, or at the end of the text, ends as late as a range without
white space can. -/
lemma isGreatest_of_detached {a u y : List Char} (htext : b.text = a ++ (u ++ y)) (hu : Solid u)
    (hy : Detached y) : IsGreatest {j | b.SolidRange a.length j} (a ++ u).length := by
  constructor
  · exact ⟨u, slice?_eq_some_iff.2 ⟨a, y, by rw [htext, List.append_assoc], rfl, rfl⟩, hu⟩
  · rintro j ⟨t, ht, hsolid⟩
    obtain ⟨x, y', htext', hlength, rfl⟩ := slice?_eq_some_iff.1 ht
    rw [List.append_assoc] at htext'
    obtain ⟨rfl, hsame⟩ := List.append_inj (htext.symm.trans htext') hlength
    rcases List.append_eq_append_iff.1 hsame with ⟨q, rfl, rfl⟩ | ⟨q, rfl, -⟩
    · cases q with
      | nil => simp
      | cons c q =>
        have hblank : Unicode.isWhiteSpace c = true := hy c rfl
        rw [hsolid c (by simp)] at hblank
        exact absurd hblank Bool.false_ne_true
    · simp

/-- The rest of a line ends at the first newline, or at the end of the text. -/
lemma isLeast_of_newline {a l y : List Char} (htext : b.text = a ++ (l ++ y)) (hl : '\n' ∉ l)
    (hy : ∀ c, y.head? = some c → c = '\n') :
    IsLeast {j | a.length ≤ j ∧ (b.charAt? j = some '\n' ∨ j = b.length)} (a ++ l).length := by
  have hlength := congrArg List.length htext
  rw [length_text, List.length_append, List.length_append] at hlength
  constructor
  · refine ⟨by simp, ?_⟩
    cases y with
    | nil => exact .inr (by simp [hlength])
    | cons c y =>
      left
      rw [charAt?_eq, htext, ← List.append_assoc, List.getElem?_append_right le_rfl, hy c rfl]
      simp
  · rintro j ⟨hj, hend⟩
    rw [List.length_append]
    by_contra hlt
    rcases hend with hnewline | hend
    · rw [charAt?_eq, htext, List.getElem?_append_right hj,
        List.getElem?_append_left (by omega)] at hnewline
      exact hl (List.mem_of_getElem? hnewline)
    · omega

end Buffer

/-- A part of a text that an insertion before it reaches holds no stop, and a stop follows it. -/
lemma stops_of_reach_eq {comments : Bool} {r z : List Char} (h : reach comments (r ++ z) = r) :
    (∀ c ∈ r, stops comments c = false) ∧ ∀ c, z.head? = some c → stops comments c = true := by
  constructor
  · intro c hc
    rw [← h] at hc
    simpa using List.mem_takeWhile_imp hc
  · have hstop := drop_reach comments (r ++ z)
    rwa [h, List.drop_left] at hstop

/-! ## The pieces that a widened place cuts a text into -/

/-- The widened piece around the offset `p` lies between `a` and `z`. -/
structure Widening.Cuts (w : Widening) (text : List Char) (p : Nat) (a z : List Char) : Prop where
  text_eq : text = a ++ w.left ++ (w.right ++ z)
  start_eq : w.start = a.length
  place_eq : p = (a ++ w.left).length
  stop_eq : w.stop = (a ++ w.left ++ w.right).length

namespace Widening.Cuts

variable {w : Widening} {b : Buffer} {text inserted a z : List Char} {p : Nat} {toLineEnd : Bool}

lemma start_le (h : w.Cuts text p a z) : w.start ≤ p := by
  rw [h.start_eq, h.place_eq]
  simp

lemma le_stop (h : w.Cuts text p a z) : p ≤ w.stop := by
  rw [h.place_eq, h.stop_eq]
  simp

lemma stop_le (h : w.Cuts text p a z) : w.stop ≤ text.length := by
  rw [h.stop_eq, h.text_eq, ← List.append_assoc]
  simp

/-- What is around the inserted text in the widened piece is what was there before. -/
lemma splice_eq (h : w.Cuts text p a z) (inserted : List Char) :
    text.take w.start ++ w.splice inserted ++ text.drop w.stop =
      text.take p ++ inserted ++ text.drop p := by
  have hstart : text.take w.start = a := by
    rw [h.start_eq, h.text_eq, List.append_assoc, List.take_left]
  have hstop : text.drop w.stop = z := by
    rw [h.stop_eq, h.text_eq, ← List.append_assoc, List.drop_left]
  have htake : text.take p = a ++ w.left := by
    rw [h.place_eq, h.text_eq, List.take_left]
  have hdrop : text.drop p = w.right ++ z := by
    rw [h.place_eq, h.text_eq, List.drop_left]
  rw [hstart, hstop, htake, hdrop, Widening.splice]
  simp only [List.append_assoc]

lemma slice?_left (h : w.Cuts b.text p a z) : b.slice? w.start p = some w.left :=
  Buffer.slice?_eq_some_iff.2 ⟨a, w.right ++ z, h.text_eq, h.start_eq, h.place_eq⟩

lemma slice?_right (h : w.Cuts b.text p a z) : b.slice? p w.stop = some w.right :=
  Buffer.slice?_eq_some_iff.2
    ⟨a ++ w.left, z, by rw [h.text_eq, List.append_assoc (a ++ w.left)], h.place_eq, h.stop_eq⟩

/-- On the left nothing is taken in, or a whole word up to the place. -/
lemma start_spec (h : w.Cuts b.text p a z)
    (hleft : if Text.startsBlank inserted then w.left = [] else Closed a ∧ Solid w.left) :
    if Text.startsBlank inserted then w.start = p
    else IsLeast {i | b.SolidRange i p} w.start := by
  rw [h.start_eq, h.place_eq]
  cases hins : Text.startsBlank inserted with
  | true =>
    have hnone : w.left = [] := by simpa [hins] using hleft
    simp [hnone]
  | false =>
    have hword : Closed a ∧ Solid w.left := by simpa [hins] using hleft
    exact Buffer.isLeast_of_closed h.text_eq hword.1 hword.2

/-- On the right the rest of the line is taken in, or nothing, or the rest of a word. -/
lemma stop_spec (h : w.Cuts b.text p a z)
    (hright : rightOf toLineEnd inserted (w.right ++ z) = w.right) :
    if toLineEnd then IsLeast {j | p ≤ j ∧ (b.charAt? j = some '\n' ∨ j = b.length)} w.stop
    else if Text.endsBlank inserted then w.stop = p
    else IsGreatest {j | b.SolidRange p j} w.stop := by
  rw [h.stop_eq, h.place_eq]
  cases toLineEnd with
  | true =>
    have hreach : reach true (w.right ++ z) = w.right := hright
    obtain ⟨hline, hnewline⟩ := stops_of_reach_eq hreach
    refine Buffer.isLeast_of_newline h.text_eq (fun hmem => ?_) fun c hc => ?_
    · simpa [stops] using hline _ hmem
    · simpa [stops] using hnewline c hc
  | false =>
    cases hins : Text.endsBlank inserted with
    | true =>
      have hnone : w.right = [] := by
        rw [← hright, rightOf, hins]
        rfl
      simp [hnone]
    | false =>
      rw [rightOf, hins] at hright
      obtain ⟨hsolid, hdetached⟩ := stops_of_reach_eq hright
      exact Buffer.isGreatest_of_detached h.text_eq hsolid hdetached

end Widening.Cuts

/-! ## Both edges -/

/-- A position behind the end of the text stands for its end. -/
lemma widen_min (text : List Char) (position : Nat) (inserted : List Char) (toLineEnd : Bool) :
    widen text (min position text.length) inserted toLineEnd =
      widen text position inserted toLineEnd := by
  rw [widen, widen, ← List.take_eq_take_min, ← List.drop_eq_drop_min]

lemma Draft.insert_min (d : Draft) (comments : Bool) (position : Nat) (inserted : List Char) :
    d.insert comments (min position d.buffer.length) inserted =
      d.insert comments position inserted := by
  rw [insert, insert, ← Buffer.length_text, widen_min]

lemma cuts_rightOf (a u t inserted : List Char) (toLineEnd : Bool) :
    (Widening.mk a.length ((a ++ u).length + (rightOf toLineEnd inserted t).length) u
        (rightOf toLineEnd inserted t)).Cuts (a ++ u ++ t) (a ++ u).length a
      (t.drop (rightOf toLineEnd inserted t).length) where
  text_eq := by rw [Draft.rightOf_append_drop]
  start_eq := rfl
  place_eq := rfl
  stop_eq := List.length_append.symm

/-- The pieces of a text around a place, with what is taken in on either side of it. -/
lemma exists_cuts {b : Buffer} {position : Nat} {inserted : List Char} {toLineEnd : Bool}
    {w : Widening} (hw : w = widen b.text position inserted toLineEnd) :
    ∃ a z, w.Cuts b.text (min position b.length) a z ∧
      (if Text.startsBlank inserted then w.left = [] else Closed a ∧ Solid w.left) ∧
      rightOf toLineEnd inserted (w.right ++ z) = w.right := by
  obtain ⟨x, y, hcells, hplace⟩ :
      ∃ x y, b.cells = x ++ y ∧ min position b.length = x.length :=
    ⟨b.cells.take (min position b.length), b.cells.drop (min position b.length),
      (List.take_append_drop _ _).symm, (List.length_take_of_le (Nat.min_le_right _ _)).symm⟩
  rw [← widen_min, Buffer.length_text] at hw
  rw [hplace, Buffer.text_eq, hcells, textOf_append, ← length_textOf] at hw ⊢
  have hcuts := fun a u => cuts_rightOf a u (textOf y) inserted toLineEnd
  have hright := Draft.rightOf_append_drop toLineEnd inserted (textOf y)
  cases hins : Text.startsBlank inserted with
  | true =>
    rw [widen_blank _ _ hins] at hw
    subst hw
    refine ⟨textOf x, _, ?_, rfl, by rw [hright]⟩
    simpa only [List.append_nil] using hcuts (textOf x) []
  | false =>
    -- the text before the place ends in a word, and the left side is this word
    obtain ⟨x₀, u, rfl, hx, hu⟩ := exists_closed_solid x
    rw [textOf_append] at hw ⊢
    rw [widen_word hx hu _ hins] at hw
    subst hw
    exact ⟨textOf x₀, _, hcuts (textOf x₀) (textOf u), ⟨hx, hu⟩, by rw [hright]⟩

/-- **Where a widened place starts and ends.**  The place is `p`, which is the end of the text if
the position lies behind it.  The widened piece holds the place and lies in the text, and it
consists of what stands there on the left and on the right of the place.  So the spliced text in the
place of this piece is the inserted text at the place.  An insertion, which scans the spliced text,
is always made, and leaves its caret behind the inserted text.

* On the left the piece goes as far as it can without white space, unless the inserted text starts
  with white space.  Then it starts at the place.
* On the right it goes to the first newline or the end of the text, if it is to go to the end of the
  line.  Otherwise it goes as far as it can without white space, unless the inserted text ends with
  white space.  Then it ends at the place. -/
theorem widen_exactly (b : Buffer) (position : Nat) (inserted : List Char) (toLineEnd : Bool)
    {p : Nat} (hp : p = min position b.length) {w : Widening}
    (hw : w = widen b.text position inserted toLineEnd) :
    (w.start ≤ p ∧ p ≤ w.stop ∧ w.stop ≤ b.length) ∧
    (b.slice? w.start p = some w.left ∧ b.slice? p w.stop = some w.right) ∧
    b.text.take w.start ++ w.splice inserted ++ b.text.drop w.stop =
      b.text.take p ++ inserted ++ b.text.drop p ∧
    (∀ changes, ∃ d,
      (Draft.mk b changes).insert toLineEnd position inserted = .ok (d, p + inserted.length) ∧
      d.buffer.text = b.text.take p ++ inserted ++ b.text.drop p) ∧
    (if Text.startsBlank inserted then w.start = p
      else IsLeast {i | b.SolidRange i p} w.start) ∧
    if toLineEnd then IsLeast {j | p ≤ j ∧ (b.charAt? j = some '\n' ∨ j = b.length)} w.stop
    else if Text.endsBlank inserted then w.stop = p
    else IsGreatest {j | b.SolidRange p j} w.stop := by
  obtain ⟨a, z, hcuts, hleft, hright⟩ := exists_cuts hw
  rw [← hp] at hcuts
  refine ⟨⟨hcuts.start_le, hcuts.le_stop, by simpa using hcuts.stop_le⟩,
    ⟨hcuts.slice?_left, hcuts.slice?_right⟩, hcuts.splice_eq inserted, fun changes => ?_,
    hcuts.start_spec hleft, hcuts.stop_spec hright⟩
  have hinside : p ≤ b.length := hp ▸ Nat.min_le_right _ _
  rw [← Draft.insert_min, ← hp]
  exact Draft.insert_text hinside toLineEnd inserted

/-- A letter typed into a word between an em space and a blank, without and with the rest of the
line, and a letter typed at a position far behind the end of the text. -/
theorem widen_exactly_between_spaces :
    ∃ b : Buffer, b = Buffer.ofText "x\u2003daw %\ny".toList ∧
      (widen b.text 3 ['r'] false = ⟨2, 5, ['d'], ['a', 'w']⟩ ∧
        IsLeast {i | b.SolidRange i 3} 2 ∧ IsGreatest {j | b.SolidRange 3 j} 5) ∧
      (widen b.text 3 ['r'] true = ⟨2, 7, ['d'], ['a', 'w', ' ', '%']⟩ ∧
        IsLeast {j | 3 ≤ j ∧ (b.charAt? j = some '\n' ∨ j = b.length)} 7) ∧
      widen b.text 99 ['r'] true = ⟨8, 9, ['y'], []⟩ ∧
        IsLeast {i | b.SolidRange i 9} 8 ∧
        IsLeast {j | 9 ≤ j ∧ (b.charAt? j = some '\n' ∨ j = b.length)} 9 := by
  let b := Buffer.ofText "x\u2003daw %\ny".toList
  have hword : widen b.text 3 ['r'] false = ⟨2, 5, ['d'], ['a', 'w']⟩ := by decide
  have hline : widen b.text 3 ['r'] true = ⟨2, 7, ['d'], ['a', 'w', ' ', '%']⟩ := by decide
  have hend : widen b.text 99 ['r'] true = ⟨8, 9, ['y'], []⟩ := by decide
  obtain ⟨-, -, -, -, hstart, hstop⟩ := widen_exactly _ _ _ _ rfl hword.symm
  obtain ⟨-, -, -, -, -, hlineEnd⟩ := widen_exactly _ _ _ _ rfl hline.symm
  obtain ⟨-, -, -, -, hlastStart, hlastStop⟩ := widen_exactly _ _ _ _ rfl hend.symm
  exact ⟨b, rfl, ⟨hword, hstart, hstop⟩, ⟨hline, hlineEnd⟩, hend, hlastStart, hlastStop⟩

end MetaPostEditor
