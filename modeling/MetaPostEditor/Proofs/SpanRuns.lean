import MetaPostEditor.Proofs.BufferCalls
import Mathlib.Data.List.Chain

/-!
# The spans of a range

The spans of a range are the longest stretches of its text under one tag.  This file says what that
means without a word about how they are found: the spans `Divide` the text and its tags.  There is
one list that does so.

* `Span.Divide.eq_spansOf`: whatever divides the cells is the list of spans that is computed.
* `Span.Divide.join`: what divides two neighbouring ranges can be joined to what divides both.

The main result is `Buffer.spans_exactly`: which ranges have spans, what these are, and how the
spans of a range come from those of its two parts, wherever it is cut.
-/

namespace MetaPostEditor

/-! ## Runs by themselves -/

section Runs

variable {κ α : Type} [DecidableEq κ]

lemma isChain_consRun (x : κ × α) {rs : List (κ × List α)}
    (h : rs.IsChain fun r s => r.1 ≠ s.1) : (consRun x rs).IsChain fun r s => r.1 ≠ s.1 := by
  cases rs with
  | nil => exact .singleton _
  | cons r rs =>
    obtain ⟨key, run⟩ := r
    rw [consRun]
    split
    · -- the first run has grown, but its key is the old one
      rw [List.isChain_cons] at h ⊢
      exact h
    · next hkey => exact .cons_cons hkey h

/-- Neighbouring runs have different keys. -/
lemma isChain_runs (xs : List (κ × α)) : (runs xs).IsChain fun r s => r.1 ≠ s.1 := by
  induction xs with
  | nil => exact .nil
  | cons x xs ih => exact isChain_consRun x ih

/-- Runs that are not empty, neighbours with different keys, are found again in what they hold. -/
lemma runs_flatMap {rs : List (κ × List α)} (hne : ∀ r ∈ rs, r.2 ≠ [])
    (hchain : rs.IsChain fun r s => r.1 ≠ s.1) :
    runs (rs.flatMap fun r => r.2.map (Prod.mk r.1)) = rs := by
  induction rs with
  | nil => rfl
  | cons r rs ih =>
    rw [List.forall_mem_cons] at hne
    rw [List.isChain_cons] at hchain
    have hfirst := runs_map_mk hne.1 r.1
    have hrest := ih hne.2 hchain.2
    rw [List.flatMap_cons]
    rcases runs_append (r.2.map (Prod.mk r.1)) (rs.flatMap fun r => r.2.map (Prod.mk r.1)) with
      happend | ⟨before, key, a, b, behind, hone, hnext, -⟩
    · rw [happend, hfirst, hrest, List.singleton_append]
    · -- the next run would have the key of this one
      have hlast : (before ++ [(key, a)]).getLast? = some (key, a) := List.getLast?_concat
      rw [← hone, hfirst] at hlast
      have hkey : r.1 = key := congrArg Prod.fst (Option.some.inj hlast)
      rw [hrest] at hnext
      have happart := hchain.1 (key, b) (by rw [hnext]; rfl)
      exact absurd hkey happart

end Runs

/-! ## Spans by themselves -/

namespace Span

/-- The spans are the longest stretches under one tag of a text with its tags. -/
structure Divide (ss : List Span) (text : List Char) (tags : List Tag) : Prop where
  text_eq : ss.flatMap (·.text) = text
  tags_eq : ss.flatMap (fun s => List.replicate s.text.length s.tag) = tags
  ne_nil : ∀ s ∈ ss, s.text ≠ []
  apart : ss.IsChain fun s t => s.tag ≠ t.tag

/-- Puts spans behind others.  If the two that meet have the same tag, they become one. -/
def join (left right : List Span) : List Span :=
  match left.getLast?, right.head? with
  | some s, some t =>
    if s.tag = t.tag then left.dropLast ++ ⟨s.tag, s.text ++ t.text⟩ :: right.tail
    else left ++ right
  | _, _ => left ++ right

variable {ss ts : List Span} {s t : Span}

lemma join_nil_left : join [] ts = ts := rfl

lemma join_nil_right : join ss [] = ss := by
  cases hs : ss.getLast? <;> simp [join, hs]

lemma join_of_eq (h : s.tag = t.tag) :
    join (ss ++ [s]) (t :: ts) = ss ++ ⟨s.tag, s.text ++ t.text⟩ :: ts := by
  simp [join, h]

lemma join_of_ne (h : s.tag ≠ t.tag) : join (ss ++ [s]) (t :: ts) = ss ++ s :: t :: ts := by
  simp [join, h]

end Span

namespace Buffer

/-- The spans of cells hold the cells in their order. -/
lemma flatMap_spansOf {β : Type} (f : Tag → Char → β) (cells : List Cell) :
    (spansOf cells).flatMap (fun span => span.text.map (f span.tag)) =
      cells.map fun cell => f cell.tag cell.char := by
  have hruns := congrArg (List.map fun x : Tag × Char => f x.1 x.2)
    (flatMap_runs (cells.map fun cell => (cell.tag, cell.char)))
  rw [List.map_flatMap, List.map_map] at hruns
  rw [spansOf, List.flatMap_map]
  simpa [Function.comp_def] using hruns

lemma flatMap_text_spansOf (cells : List Cell) :
    (spansOf cells).flatMap (·.text) = textOf cells := by
  simpa [textOf] using flatMap_spansOf (fun _ c => c) cells

lemma flatMap_tags_spansOf (cells : List Cell) :
    (spansOf cells).flatMap (fun s => List.replicate s.text.length s.tag) =
      cells.map (·.tag) := by
  simpa [List.map_const'] using flatMap_spansOf (fun tag _ => tag) cells

/-- The spans of cells divide them. -/
lemma divide_spansOf (cells : List Cell) :
    Span.Divide (spansOf cells) (textOf cells) (cells.map (·.tag)) where
  text_eq := flatMap_text_spansOf cells
  tags_eq := flatMap_tags_spansOf cells
  ne_nil := by
    intro s hs
    obtain ⟨r, hr, rfl⟩ := List.mem_map.1 hs
    exact ne_nil_of_mem_runs hr
  apart := by
    rw [spansOf, List.isChain_map]
    exact isChain_runs _

end Buffer

namespace Span

variable {ss ts : List Span} {text text' : List Char} {tags tags' : List Tag}

/-- Whatever divides cells is the list of their spans. -/
lemma Divide.eq_spansOf {cells : List Cell} (h : Divide ss (textOf cells) (cells.map (·.tag))) :
    ss = Buffer.spansOf cells := by
  have hcells : cells = ss.flatMap fun s => s.text.map fun c => ⟨c, s.tag⟩ := by
    refine cells_ext ?_ ?_
    · rw [← h.text_eq, textOf, List.map_flatMap]
      simp [Function.comp_def]
    · rw [← h.tags_eq, List.map_flatMap]
      simp [Function.comp_def, List.map_const']
  -- the same spans, written as the runs of a list of pairs
  have hruns : runs ((ss.map fun s => (s.tag, s.text)).flatMap fun r => r.2.map (Prod.mk r.1)) =
      ss.map fun s => (s.tag, s.text) := by
    refine runs_flatMap ?_ ?_
    · rw [List.forall_mem_map]
      exact h.ne_nil
    · rw [List.isChain_map]
      exact h.apart
  rw [List.flatMap_map] at hruns
  have hpairs : cells.map (fun cell => (cell.tag, cell.char)) =
      ss.flatMap fun s => s.text.map (Prod.mk s.tag) := by
    rw [hcells, List.map_flatMap]
    simp [Function.comp_def]
  rw [Buffer.spansOf, hpairs, hruns, List.map_map]
  simp [Function.comp_def]

/-- What divides two texts can be joined to what divides them one behind the other. -/
lemma Divide.join (hs : Divide ss text tags) (ht : Divide ts text' tags') :
    Divide (join ss ts) (text ++ text') (tags ++ tags') := by
  obtain ⟨rfl, rfl, hsne, hsapart⟩ := hs
  obtain ⟨rfl, rfl, htne, htapart⟩ := ht
  rcases List.eq_nil_or_concat ss with rfl | ⟨ss, s, rfl⟩
  · rw [join_nil_left]
    exact ⟨by simp, by simp, htne, htapart⟩
  cases ts with
  | nil =>
    rw [join_nil_right]
    exact ⟨by simp, by simp, hsne, hsapart⟩
  | cons t ts =>
    rw [List.concat_eq_append] at *
    rw [List.forall_mem_append, List.forall_mem_singleton] at hsne
    rw [List.forall_mem_cons] at htne
    by_cases htag : s.tag = t.tag
    · have htags : List.replicate (s.text ++ t.text).length s.tag =
          List.replicate s.text.length s.tag ++ List.replicate t.text.length t.tag := by
        rw [htag, List.replicate_append_replicate, List.length_append]
      rw [join_of_eq htag]
      refine ⟨by simp, ?_, ?_, ?_⟩
      · rw [List.flatMap_append, List.flatMap_cons, htags]
        simp
      · rw [List.forall_mem_append, List.forall_mem_cons]
        exact ⟨hsne.1, by simp [hsne.2], htne.2⟩
      · -- towards both sides the new span has the tag of an old one
        simp only [List.isChain_append, List.isChain_cons, List.head?_cons, Option.mem_some_iff,
          forall_eq'] at hsapart htapart ⊢
        exact ⟨hsapart.1, ⟨htag ▸ htapart.1, htapart.2⟩, hsapart.2.2⟩
    · rw [join_of_ne htag]
      refine ⟨by simp, by simp, ?_, ?_⟩
      · rw [List.forall_mem_append, List.forall_mem_cons, List.forall_mem_cons]
        exact ⟨hsne.1, hsne.2, htne⟩
      · simp only [List.isChain_append, List.head?_cons, Option.mem_some_iff,
          forall_eq'] at hsapart ⊢
        exact ⟨hsapart.1, .cons_cons htag htapart, hsapart.2.2⟩

end Span

namespace Buffer

variable {b : Buffer} {start stop : Nat}

lemma textOf_cellsIn : textOf (b.cellsIn start stop) = (b.text.take stop).drop start := by
  rw [cellsIn, textOf_drop, textOf_take, text_eq]

lemma map_tag_cellsIn :
    (b.cellsIn start stop).map (·.tag) = (b.tags.take stop).drop start := by
  rw [cellsIn, List.map_drop, List.map_take, tags]

/-- The cells of a range are those of its two parts. -/
lemma cellsIn_append {m : Nat} (hstart : start ≤ m) (hm : m ≤ stop) (hstop : stop ≤ b.length) :
    b.cellsIn start m ++ b.cellsIn m stop = b.cellsIn start stop := by
  have htake : b.cells.take stop = b.cells.take m ++ (b.cells.take stop).drop m := by
    conv_lhs => rw [← List.take_append_drop m (b.cells.take stop), List.take_take, min_eq_left hm]
  have hlen : start ≤ (b.cells.take m).length := by
    rwa [List.length_take_of_le (hm.trans hstop)]
  rw [cellsIn, cellsIn, cellsIn, ← List.drop_append_of_le_length hlen, ← htake]

lemma spans_of_inside (hrange : start ≤ stop) (hstop : stop ≤ b.length) :
    b.spans start stop = .ok (spansOf (b.cellsIn start stop)) := by
  rw [spans, checkRange_eq_ok hrange hstop]
  rfl

lemma spans_of_outside (h : stop < start ∨ b.length < stop) :
    b.spans start stop = .error (.outOfRange start (stop - start) b.length) := by
  rw [← length_text] at h ⊢
  rw [spans, checkRange_of_outside h]
  rfl

/-- **The spans of a range.**  They are refused exactly for a range that is reversed or reaches
behind the end.  Otherwise they are the one list that divides the text of the range and its tags:
no span is empty, the texts make up the text, each character has the tag of its span, and neighbours
have different tags.  If the range is cut anywhere, also within a span, its spans are those of the
first part followed by those of the second, where the two that meet become one exactly if they have
the same tag. -/
theorem spans_exactly (b : Buffer) (start stop : Nat) :
    (b.spans start stop = .error (.outOfRange start (stop - start) b.length) ↔
      stop < start ∨ b.length < stop) ∧
    (start ≤ stop → stop ≤ b.length →
      (∃ ss, b.spans start stop = .ok ss ∧
        ∀ ts, Span.Divide ts ((b.text.take stop).drop start) ((b.tags.take stop).drop start) ↔
          ts = ss) ∧
      ∀ m, start ≤ m → m ≤ stop →
        ∃ left right, b.spans start m = .ok left ∧ b.spans m stop = .ok right ∧
          b.spans start stop = .ok (Span.join left right)) := by
  refine ⟨⟨fun h => ?_, spans_of_outside⟩, fun hrange hstop => ⟨?_, fun m hm hm' => ?_⟩⟩
  · by_contra hinside
    rw [spans_of_inside (by omega) (by omega)] at h
    cases h
  · refine ⟨_, spans_of_inside hrange hstop, fun ts => ?_⟩
    rw [← textOf_cellsIn, ← map_tag_cellsIn]
    constructor
    · exact Span.Divide.eq_spansOf
    · rintro rfl
      exact divide_spansOf _
  · refine ⟨_, _, spans_of_inside hm (hm'.trans hstop), spans_of_inside hm' hstop, ?_⟩
    have hjoin := (divide_spansOf (b.cellsIn start m)).join (divide_spansOf (b.cellsIn m stop))
    rw [← textOf_append, ← List.map_append, cellsIn_append hm hm' hstop] at hjoin
    rw [spans_of_inside hrange hstop, hjoin.eq_spansOf]

/-- A range that starts inside a string is cut once more inside it. -/
theorem spans_exactly_cut_string :
    (1 ≤ 2 ∧ 2 ≤ 4 ∧ 4 ≤ (Buffer.mk [⟨'"', .normal⟩, ⟨'a', .quoted⟩, ⟨'b', .quoted⟩,
      ⟨'"', .normal⟩] true 1).length) ∧
    Span.Divide [⟨.quoted, ['a', 'b']⟩, ⟨.normal, ['"']⟩] ['a', 'b', '"']
      [.quoted, .quoted, .normal] ∧
    (Buffer.mk [⟨'"', .normal⟩, ⟨'a', .quoted⟩, ⟨'b', .quoted⟩, ⟨'"', .normal⟩] true 1).spans 1 4 =
      .ok (Span.join [⟨.quoted, ['a']⟩] [⟨.quoted, ['b']⟩, ⟨.normal, ['"']⟩]) := by
  obtain ⟨⟨ss, hss, hdivide⟩, hcut⟩ := (spans_exactly ⟨[⟨'"', .normal⟩, ⟨'a', .quoted⟩,
    ⟨'b', .quoted⟩, ⟨'"', .normal⟩], true, 1⟩ 1 4).2 (by decide) (by decide)
  obtain ⟨left, right, hleft, hright, hjoin⟩ := hcut 2 (by decide) (by decide)
  cases hss
  cases hleft
  cases hright
  exact ⟨by decide, (hdivide _).2 rfl, hjoin⟩

end Buffer
end MetaPostEditor
