import MetaPostEditor.Buffer
import MetaPostEditor.Position
import Mathlib.Tactic.Lemma

/-!
# Lines and where they start

The starts of lines are collected in one pass through the text.  This file says where they are by
the place alone: at the start of the text, and behind every line end, unless it is a carriage return
with a line feed behind it (`startsLine`).  Whether a line starts at an offset thus depends on the
characters on both sides of it, and the pass finds just these places (`starts_eq_lineStarts`).

An offset lies on the last line that starts at or before it (`LiesOn`).  The main result,
`ofOffset?_exactly`, says that counting the starts gives this line, and the subtraction the distance
from its start.  So offsets and positions come in the same order, and an offset is recovered from
its position.
-/

namespace MetaPostEditor
namespace Position

variable {text : List Char} {i j line line' start start' : Nat} {p q : Position}

/-- Earlier lines come first, and on one line earlier columns. -/
lemma compare_eq_lt_iff :
    compare p q = .lt ↔ p.line < q.line ∨ p.line = q.line ∧ p.column < q.column := by
  change (compare p.line q.line).then (compare p.column q.column) = .lt ↔ _
  rw [Ordering.then_eq_lt, Nat.compare_eq_lt, Nat.compare_eq_eq, Nat.compare_eq_lt]

/-! ## The starts of lines -/

/-- A line starts at the offset. -/
def startsLine (text : List Char) : Nat → Bool
  | 0 => true
  | i + 1 => text[i]?.any fun c => isLineEnd c && !(c == '\r' && text[i + 1]? == some '\n')

/-- The offsets up to `i` at which lines start, in order. -/
def startsUpTo (text : List Char) (i : Nat) : List Nat :=
  (List.range (i + 1)).filter (startsLine text)

/-- The offsets at which lines start, in order. -/
def lineStarts (text : List Char) : List Nat :=
  startsUpTo text text.length

/-- Line number `line` starts at `start`, and the offset `i` lies on it. -/
structure LiesOn (text : List Char) (i line start : Nat) : Prop where
  starts : (lineStarts text)[line]? = some start
  start_le : start ≤ i
  lt_next : ∀ next, (lineStarts text)[line + 1]? = some next → i < next

lemma pairwise_lineStarts (text : List Char) : (lineStarts text).Pairwise (· < ·) :=
  List.pairwise_lt_range.filter _

/-- Later lines do not start earlier. -/
lemma start_le_start (h : (lineStarts text)[line]? = some start)
    (h' : (lineStarts text)[line']? = some start') (hle : line ≤ line') : start ≤ start' := by
  obtain ⟨hline, rfl⟩ := List.getElem?_eq_some_iff.1 h
  obtain ⟨hline', rfl⟩ := List.getElem?_eq_some_iff.1 h'
  rcases Nat.eq_or_lt_of_le hle with rfl | hlt
  · exact Nat.le_refl _
  · exact Nat.le_of_lt (List.pairwise_iff_getElem.1 (pairwise_lineStarts text) _ _ hline hline' hlt)

namespace LiesOn

/-- Later offsets do not lie on earlier lines. -/
lemma line_le (h : LiesOn text i line start) (h' : LiesOn text j line' start') (hij : i ≤ j) :
    line ≤ line' := by
  refine Nat.not_lt.1 fun hlt => ?_
  obtain ⟨hline, -⟩ := List.getElem?_eq_some_iff.1 h.starts
  have hnext : line' + 1 < (lineStarts text).length := by omega
  -- the line of `i` does not start before the one that follows the line of `j`
  have hj := h'.lt_next _ (List.getElem?_eq_getElem hnext)
  have hi := start_le_start (List.getElem?_eq_getElem hnext) h.starts (by omega)
  have := h.start_le
  omega

lemma line_eq (h : LiesOn text i line start) (h' : LiesOn text i line' start') : line = line' :=
  Nat.le_antisymm (h.line_le h' (Nat.le_refl _)) (h'.line_le h (Nat.le_refl _))

lemma start_eq (h : LiesOn text i line start) (h' : LiesOn text j line start') : start = start' :=
  Option.some.inj (h.starts.symm.trans h'.starts)

end LiesOn

/-! ## Positions -/

lemma endsLine_eq_startsLine {c : Char} {a rest : List Char} :
    endsLine c rest = startsLine (a ++ c :: rest) (a.length + 1) := by
  have hnext : (a ++ c :: rest)[a.length + 1]? = rest.head? := by
    rw [List.getElem?_append_right (Nat.le_add_right _ 1), Nat.add_sub_cancel_left,
      List.head?_eq_getElem?]
    rfl
  simp [endsLine, startsLine, hnext]

/-- The starts that are collected in the rest of a text are those at which a line starts. -/
lemma startsFrom_eq (a rest : List Char) :
    startsFrom a.length rest =
      (List.range' (a.length + 1) rest.length).filter (startsLine (a ++ rest)) := by
  induction rest generalizing a with
  | nil => rfl
  | cons c rest ih =>
    have hlater := ih (a ++ [c])
    rw [List.length_append, List.length_singleton, List.append_assoc, List.singleton_append]
      at hlater
    rw [startsFrom, hlater, List.length_cons, List.range'_succ, List.filter_cons,
      endsLine_eq_startsLine]

lemma starts_eq_lineStarts (text : List Char) : starts text = lineStarts text := by
  have hfrom := startsFrom_eq [] text
  rw [List.length_nil, List.nil_append] at hfrom
  rw [starts, hfrom, lineStarts, startsUpTo, List.range_eq_range', List.range'_succ,
    List.filter_cons_of_pos rfl]

/-- The starts behind an offset follow those up to it. -/
lemma exists_lineStarts_eq (hi : i ≤ text.length) :
    ∃ later, lineStarts text = startsUpTo text i ++ later ∧ ∀ s ∈ later, i < s := by
  obtain ⟨k, hk⟩ := Nat.exists_eq_add_of_le hi
  have hlength : text.length + 1 = i + 1 + k := by omega
  refine ⟨((List.range k).map (i + 1 + ·)).filter (startsLine text), ?_, fun s hs => ?_⟩
  · rw [lineStarts, startsUpTo, hlength, List.range_add, List.filter_append, ← startsUpTo]
  · obtain ⟨d, -, rfl⟩ := List.mem_map.1 (List.mem_filter.1 hs).1
    omega

lemma le_of_mem_startsUpTo {s : Nat} (h : s ∈ startsUpTo text i) : s ≤ i :=
  Nat.lt_succ_iff.1 (List.mem_range.1 (List.mem_filter.1 h).1)

/-- The last start up to an offset is that of the line which the offset lies on. -/
lemma exists_startsUpTo_eq (text : List Char) (i : Nat) :
    ∃ earlier start, startsUpTo text i = earlier ++ [start] := by
  have hzero : 0 ∈ startsUpTo text i :=
    List.mem_filter.2 ⟨List.mem_range.2 (Nat.succ_pos i), rfl⟩
  exact ⟨_, _, (List.dropLast_concat_getLast (List.ne_nil_of_mem hzero)).symm⟩

/-- The number of the line counts the starts up to the offset, and the last of them is its start. -/
lemma exists_liesOn (hi : i ≤ text.length) :
    ∃ start, LiesOn text i (lineOf text i) start ∧ startOf text (lineOf text i) = start := by
  obtain ⟨later, hall, hlater⟩ := exists_lineStarts_eq hi
  obtain ⟨earlier, start, hstarts⟩ := exists_startsUpTo_eq text i
  have hcount : (startsUpTo text i ++ later).countP (· ≤ i) = (startsUpTo text i).length := by
    have hnone : later.countP (· ≤ i) = 0 :=
      List.countP_eq_zero.2 fun s hs => by simpa using hlater s hs
    rw [List.countP_append, hnone, Nat.add_zero, List.countP_eq_length]
    exact fun s hs => by simpa using le_of_mem_startsUpTo hs
  have hline : lineOf text i = earlier.length := by
    rw [lineOf, starts_eq_lineStarts, hall, hcount, hstarts, List.length_append,
      List.length_singleton, Nat.add_sub_cancel]
  have hstart : (lineStarts text)[lineOf text i]? = some start := by
    rw [hall, hstarts, hline]
    simp
  have hmem : start ∈ startsUpTo text i := by simp [hstarts]
  refine ⟨start, ⟨hstart, le_of_mem_startsUpTo hmem, fun next hnext => ?_⟩, ?_⟩
  · rw [hall, hstarts, hline, List.getElem?_append_right (by simp)] at hnext
    exact hlater next (List.mem_of_getElem? hnext)
  · rw [startOf, starts_eq_lineStarts, hstart, Option.getD_some]

lemma exists_ofOffset?_iff (text : List Char) (i : Nat) :
    (∃ p, ofOffset? text i = some p) ↔ i ≤ text.length := by
  rw [ofOffset?]
  split
  · next hlt => simpa using hlt
  · next hle => simpa using hle

lemma liesOn_of_ofOffset? (h : ofOffset? text i = some p) :
    ∃ start, LiesOn text i p.line start ∧ i = start + p.column := by
  have hi := (exists_ofOffset?_iff text i).1 ⟨p, h⟩
  obtain ⟨start, hlies, hstart⟩ := exists_liesOn hi
  rw [ofOffset?, if_neg (Nat.not_lt.2 hi)] at h
  cases h
  exact ⟨start, hlies, by rw [hstart, Nat.add_sub_cancel' hlies.start_le]⟩

/-- The position of an offset is the line on which it lies and its distance from the start. -/
lemma ofOffset?_eq_some_iff :
    ofOffset? text i = some p ↔
      i ≤ text.length ∧ ∃ start, LiesOn text i p.line start ∧ i = start + p.column := by
  constructor
  · intro h
    exact ⟨(exists_ofOffset?_iff text i).1 ⟨p, h⟩, liesOn_of_ofOffset? h⟩
  · rintro ⟨hi, start, hlies, hcolumn⟩
    obtain ⟨q, hq⟩ := (exists_ofOffset?_iff text i).2 hi
    obtain ⟨start', hlies', hcolumn'⟩ := liesOn_of_ofOffset? hq
    obtain ⟨line, column⟩ := p
    obtain ⟨line', column'⟩ := q
    obtain rfl : line = line' := hlies.line_eq hlies'
    obtain rfl : start = start' := hlies.start_eq hlies'
    obtain rfl : column = column' := by
      simp only at hcolumn hcolumn'
      omega
    exact hq

/-- Of two offsets on one line the later one has the greater column, and otherwise it lies on a
later line. -/
lemma compare_of_lt (hij : i < j) (hp : ofOffset? text i = some p)
    (hq : ofOffset? text j = some q) : compare p q = .lt := by
  obtain ⟨start, hlies, hcolumn⟩ := liesOn_of_ofOffset? hp
  obtain ⟨start', hlies', hcolumn'⟩ := liesOn_of_ofOffset? hq
  rw [compare_eq_lt_iff]
  rcases Nat.eq_or_lt_of_le (hlies.line_le hlies' (Nat.le_of_lt hij)) with hline | hline
  · have hstart : start = start' := (hline ▸ hlies).start_eq hlies'
    exact .inr ⟨hline, by omega⟩
  · exact .inl hline

/-- **Positions tell offsets apart.**  An offset has a position exactly if it lies in the text or at
its end.  The position is then the line that starts last at or before the offset, and the distance
from its start, so that the start of the line plus the column gives the offset back.  Of two offsets
the later one has the later position, and no two have the same one. -/
theorem ofOffset?_exactly (b : Buffer) :
    (∀ i, (∃ p, ofOffset? b.text i = some p) ↔ i ≤ b.length) ∧
    (∀ i p, ofOffset? b.text i = some p ↔
      i ≤ b.length ∧ ∃ start, LiesOn b.text i p.line start ∧ i = start + p.column) ∧
    (∀ i j, i < j → j ≤ b.length →
      ∃ p q, ofOffset? b.text i = some p ∧ ofOffset? b.text j = some q ∧ compare p q = .lt) ∧
    ∀ i j p, ofOffset? b.text i = some p → ofOffset? b.text j = some p → i = j := by
  rw [← Buffer.length_text]
  refine ⟨exists_ofOffset?_iff b.text, fun i p => ofOffset?_eq_some_iff, fun i j hij hj => ?_,
    fun i j p hi hj => ?_⟩
  · obtain ⟨p, hp⟩ := (exists_ofOffset?_iff b.text i).2 (by omega)
    obtain ⟨q, hq⟩ := (exists_ofOffset?_iff b.text j).2 hj
    exact ⟨p, q, hp, hq, compare_of_lt hij hp hq⟩
  · have hself : compare p p ≠ .lt := by
      rw [ne_eq, compare_eq_lt_iff]
      omega
    rcases Nat.lt_trichotomy i j with hij | hij | hij
    · exact absurd (compare_of_lt hij hi hj) hself
    · exact hij
    · exact absurd (compare_of_lt hij hj hi) hself

/-- The place between a carriage return and a line feed lies on the line that they end, a carriage
return alone ends a line, and so does a line separator at the end of the text. -/
theorem ofOffset?_exactly_carriage_returns :
    lineStarts ['a', '\r', '\n', '\r', 'b', '\u2028'] = [0, 3, 4, 6] ∧
      ofOffset? ['a', '\r', '\n', '\r', 'b', '\u2028'] 2 = some ⟨0, 2⟩ ∧
      ofOffset? ['a', '\r', '\n', '\r', 'b', '\u2028'] 6 = some ⟨3, 0⟩ ∧
      ∃ p q, ofOffset? ['a', '\r', '\n', '\r', 'b', '\u2028'] 2 = some p ∧
        ofOffset? ['a', '\r', '\n', '\r', 'b', '\u2028'] 3 = some q ∧ compare p q = .lt := by
  have hstarts : lineStarts ['a', '\r', '\n', '\r', 'b', '\u2028'] = [0, 3, 4, 6] := by decide
  obtain ⟨-, hiff, hordered, -⟩ :=
    ofOffset?_exactly (Buffer.ofText ['a', '\r', '\n', '\r', 'b', '\u2028'])
  rw [Buffer.text_ofText] at hiff hordered
  refine ⟨hstarts, (hiff 2 ⟨0, 2⟩).2 ⟨by decide, 0, ⟨?_, by decide, ?_⟩, rfl⟩,
    (hiff 6 ⟨3, 0⟩).2 ⟨by decide, 6, ⟨?_, by decide, ?_⟩, rfl⟩,
    hordered 2 3 (by decide) (by decide)⟩
  all_goals simp [hstarts]

end Position
end MetaPostEditor
