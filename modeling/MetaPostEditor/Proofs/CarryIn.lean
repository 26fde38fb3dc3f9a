import MetaPostEditor.Editor
import MetaPostEditor.Proofs.Classification

/-!
# The state that the tags tell

A scan of a piece of the text starts in a state that is read off the tags before the piece.  The
main result, `carryOf_append`, says that this works wherever the tags before the piece are such as
the scanner's states can give: the state read off is then the one the scanner is in, as far as
strings and comments are concerned.  Words need not be tagged as a whole for this, so it holds in
the middle of an edit too, when half a word is left over.
-/

namespace MetaPostEditor

/-- A quote that delimits a string. -/
def Cell.isDelimiter (cell : Cell) : Bool :=
  cell.char == '"' && cell.tag == .normal

/-- The state in which a scan continues the given cells. -/
def carryOf (before : List Cell) : Scanner.State :=
  let quotes := before.reverse.takeWhile Cell.isDelimiter
  let state := Scanner.State.after ((before.reverse.drop quotes.length).head?.map (·.tag))
  if quotes.length % 2 = 0 then state else state.acrossQuote

lemma Buffer.stateAt_eq_carryOf (b : Buffer) (start : Nat) :
    b.stateAt start = carryOf (b.cells.take start) := rfl

@[simp] lemma carryOf_nil : carryOf [] = .normal := rfl

lemma Scanner.State.acrossQuote_acrossQuote (s : Scanner.State) :
    s.acrossQuote.acrossQuote = s := by
  cases s <;> rfl

/-! ## One more cell -/

lemma carryOf_concat_delimiter {cell : Cell} (h : cell.isDelimiter = true) (x : List Cell) :
    carryOf (x ++ [cell]) = (carryOf x).acrossQuote := by
  simp only [carryOf, List.reverse_append, List.reverse_cons, List.reverse_nil, List.nil_append,
    List.singleton_append, List.takeWhile_cons, h, if_true, List.length_cons, List.drop_succ_cons]
  generalize (x.reverse.takeWhile Cell.isDelimiter).length = n
  rcases Nat.mod_two_eq_zero_or_one n with hn | hn
  · rw [if_neg (by omega), if_pos hn]
  · rw [if_pos (by omega), if_neg (by omega), Scanner.State.acrossQuote_acrossQuote]

lemma carryOf_concat_other {cell : Cell} (h : cell.isDelimiter = false) (x : List Cell) :
    carryOf (x ++ [cell]) = Scanner.State.after (some cell.tag) := by
  simp [carryOf, h]

namespace Scanner

/-- The state is one that the scanner can be in: it is in a comment only if comments are shown. -/
def State.Possible (comments : Bool) (s : State) : Prop :=
  s = .comment → comments = true

lemma State.possible_normal (comments : Bool) : State.Possible comments .normal := by
  simp [State.Possible]

lemma State.possible_step (comments : Bool) (s : State) (c : Char) :
    State.Possible comments (s.step comments c) := by
  intro h
  rw [State.step] at h
  split at h
  · split at h <;> simp at h
  · split at h
    · next hs => exact hs.2
    · split at h
      · simp at h
      · split at h
        · simp at h
        · split at h
          · simp at h
          · split at h
            · next hc => exact hc.2
            · simp at h

lemma State.possible_run {comments : Bool} {s : State} (h : s.Possible comments)
    (text : List Char) : (s.run comments text).Possible comments := by
  induction text generalizing s with
  | nil => exact h
  | cons c rest ih => exact ih (State.possible_step comments s c)

/-- A quote is on the other side of a string, or in a comment. -/
lemma State.step_quote {comments : Bool} {s : State} (h : s.Possible comments) :
    (s.step comments '"' = .comment ∧ s = .comment) ∨
      (s.step comments '"').carry = s.carry.acrossQuote := by
  have hnum : Unicode.isNumeric '"' = false := by decide +kernel
  have halpha : Unicode.isAlphabetic '"' = false := by decide +kernel
  cases s with
  | comment =>
    left
    have hcom : comments = true := h rfl
    simp [State.step, State.inString, hcom]
  | _ => right; simp [State.step, State.inString, hnum, halpha, State.carry, State.acrossQuote]

/-- Only a quote opens a string. -/
lemma State.eq_quote_of_step_eq_openQuote {comments : Bool} {s : State} {c : Char}
    (h : s.step comments c = .openQuote) : c = '"' := by
  rw [State.step] at h
  split at h
  · split at h <;> simp at h
  · split at h
    · split at h <;> simp at h
    · split at h
      · simp at h
      · split at h
        · simp at h
        · split at h
          · assumption
          · split at h <;> simp at h

/-- A tag tells the state after its character, except for the quote that opens a string. -/
lemma State.after_tag {s : State} (h : s ≠ .openQuote) (text : List Char) :
    State.after (some (s.tag text)) = s.carry := by
  cases s with
  | openQuote => exact absurd rfl h
  | word =>
    simp only [State.tag]
    split
    · rfl
    · split <;> rfl
  | _ => rfl

lemma carryOf_concat {comments : Bool} {s : State} (hs : s.Possible comments) {x : List Cell}
    (hx : carryOf x = s.carry) {cell : Cell} {c : Char}
    (hcell : Tinted cell (s.step comments c, c)) :
    carryOf (x ++ [cell]) = (s.step comments c).carry := by
  obtain ⟨hchar, text, htag⟩ := hcell
  cases hdel : cell.isDelimiter with
  | true =>
    simp only [Cell.isDelimiter, Bool.and_eq_true, beq_iff_eq] at hdel
    have hc : c = '"' := hchar.symm.trans hdel.1
    subst hc
    rw [carryOf_concat_delimiter (by simp [Cell.isDelimiter, hdel]), hx]
    rcases State.step_quote hs with ⟨hcom, -⟩ | hquote
    · -- inside a comment a quote has the tag of the comment
      simp only [hcom, State.tag] at htag
      rw [hdel.2] at htag
      exact absurd htag (by simp)
    · exact hquote.symm
  | false =>
    rw [carryOf_concat_other hdel]
    simp only at htag
    rw [htag]
    refine State.after_tag (fun hopen => ?_) text
    have hc : c = '"' := State.eq_quote_of_step_eq_openQuote hopen
    simp only [hopen, State.tag] at htag
    have hquote : cell.char = '"' := hchar.trans hc
    simp [Cell.isDelimiter, hquote, htag] at hdel

end Scanner

/-- **The tags tell the state.**  If the state read off the cells `x` is `s`, as far as strings and
comments are concerned, and the cells that follow have tags such as a scan from `s` can give, then
the state read off all these cells is the one that the scan comes to. -/
lemma carryOf_append {comments : Bool} {s : Scanner.State} (hs : s.Possible comments)
    {x y : List Cell} (hx : carryOf x = s.carry) {text : List Char}
    (hy : List.Forall₂ Scanner.Tinted y (Scanner.trace comments s text)) :
    carryOf (x ++ y) = (s.run comments text).carry := by
  induction text generalizing s x y with
  | nil =>
    cases hy
    simpa using hx
  | cons c rest ih =>
    rw [Scanner.trace] at hy
    cases hy with
    | @cons cell _ y _ hcell hy =>
      have hstep := Scanner.carryOf_concat hs hx hcell
      rw [Scanner.State.run_cons, ← ih (Scanner.State.possible_step comments s c) hstep hy]
      simp

lemma carryOf_append_classify {comments : Bool} {s : Scanner.State} (hs : s.Possible comments)
    {x : List Cell} (hx : carryOf x = s.carry) (text : List Char) :
    carryOf (x ++ classify comments s text) = (s.run comments text).carry :=
  carryOf_append hs hx (forall₂_classify comments s text)

/-- The state can be read off any part of a scanned text. -/
lemma carryOf_take_classify (comments : Bool) (a b : List Char) :
    carryOf ((classify comments .normal (a ++ b)).take a.length) =
      (Scanner.State.normal.run comments a).carry := by
  have htint := List.forall₂_take a.length (forall₂_classify comments .normal (a ++ b))
  have htrace : (Scanner.trace comments .normal (a ++ b)).take a.length =
      Scanner.trace comments .normal a := by
    rw [Scanner.trace_append]
    refine List.take_left' ?_
    rw [← List.length_map Prod.snd, Scanner.map_snd_trace]
  rw [htrace] at htint
  simpa using carryOf_append (Scanner.State.possible_normal comments) carryOf_nil htint

end MetaPostEditor
