import MetaPostEditor.Buffer
import MetaPostEditor.Proofs.Tokens
import MetaPostEditor.Text
import Mathlib.Data.List.Forall2
import Mathlib.Tactic.Lemma

/-!
# The tags that a scan gives

A scan cuts a text into tokens, and every character takes the tag of its token.  This file reads the
outcome of a scan as a list of cells, `classify`, and says how it can be put together from the
outcomes for parts of the text.

The tag of a character depends on what stands around it in two ways.  The scanner is in some state
when it comes to the character, and what is needed of that state is only on which side of a quote or
a comment sign it is (`State.carry`).  A word is looked up as a whole, so its tag depends on all its
letters.  No word runs over white space, and the main result follows:

* `classify_append`: where white space stands on one side of a border at least, the outcome for the
  whole text is the outcome for the first part followed by that for the second part, the latter read
  from the state that the first part leads to.
-/

namespace MetaPostEditor

/-! ## White space is in no word and in no number -/

namespace Unicode

lemma RangeTable.exists_mem_of_contains {table : RangeTable} {n : Nat}
    (h : table.contains n = true) : ∃ r ∈ table, r.1 ≤ n ∧ n ≤ r.2 := by
  induction table with
  | nil => simp [RangeTable.contains] at h
  | cons r rest ih =>
    obtain ⟨first, last⟩ := r
    rw [RangeTable.contains] at h
    split at h
    · simp at h
    · next hfirst =>
      split at h
      · next hlast => exact ⟨(first, last), by simp, by simpa using hfirst, hlast⟩
      · obtain ⟨r, hr, hn⟩ := ih h
        exact ⟨r, by simp [hr], hn⟩

/-- No range of the one table meets a range of the other. -/
def RangeTable.apart (s t : RangeTable) : Bool :=
  s.all fun r => t.all fun q => r.2 < q.1 || q.2 < r.1

lemma RangeTable.contains_eq_false_of_apart {s t : RangeTable} (hst : s.apart t = true) {n : Nat}
    (hs : s.contains n = true) : t.contains n = false := by
  by_contra ht
  obtain ⟨r, hr, hr₁, hr₂⟩ := exists_mem_of_contains hs
  obtain ⟨q, hq, hq₁, hq₂⟩ := exists_mem_of_contains (by simpa using ht)
  have hrq := List.all_eq_true.1 (List.all_eq_true.1 hst r hr) q hq
  simp only [Bool.or_eq_true, decide_eq_true_eq] at hrq
  omega

lemma isNumeric_of_isWhiteSpace {c : Char} (h : isWhiteSpace c = true) : isNumeric c = false :=
  RangeTable.contains_eq_false_of_apart (by decide +kernel) h

lemma isAlphabetic_of_isWhiteSpace {c : Char} (h : isWhiteSpace c = true) :
    isAlphabetic c = false :=
  RangeTable.contains_eq_false_of_apart (by decide +kernel) h

end Unicode

/-! ## States that read on alike -/

namespace Scanner

/-- What a scan needs to know of a state: whether it is in a string or in a comment. -/
def State.carry : State → State
  | quoted | openQuote => quoted
  | comment => comment
  | _ => normal

lemma State.step_carry (comments : Bool) (s : State) (c : Char) :
    s.carry.step comments c = s.step comments c := by
  cases s <;> simp [State.carry, State.step, State.inString]

/-- The state after a text that is read from the state `s` on. -/
def State.run (comments : Bool) (s : State) (text : List Char) : State :=
  text.foldl (State.step comments) s

@[simp] lemma State.run_nil (comments : Bool) (s : State) : s.run comments [] = s := rfl

@[simp] lemma State.run_cons (comments : Bool) (s : State) (c : Char) (text : List Char) :
    s.run comments (c :: text) = (s.step comments c).run comments text := rfl

lemma State.run_append (comments : Bool) (s : State) (a b : List Char) :
    s.run comments (a ++ b) = (s.run comments a).run comments b :=
  List.foldl_append

lemma State.step_of_carry_eq {s t : State} (h : s.carry = t.carry) (comments : Bool) (c : Char) :
    s.step comments c = t.step comments c := by
  rw [← State.step_carry, h, State.step_carry]

lemma State.run_carry_of_carry_eq {s t : State} (h : s.carry = t.carry) (comments : Bool)
    (text : List Char) : (s.run comments text).carry = (t.run comments text).carry := by
  cases text with
  | nil => exact h
  | cons c rest => rw [State.run_cons, State.run_cons, State.step_of_carry_eq h]

lemma trace_of_carry_eq {s t : State} (h : s.carry = t.carry) (comments : Bool)
    (text : List Char) : trace comments s text = trace comments t text := by
  cases text with
  | nil => rfl
  | cons c rest => rw [trace, trace, State.step_of_carry_eq h]

lemma State.step_ne_word {c : Char} (h : Unicode.isWhiteSpace c = true) (comments : Bool)
    (s : State) : s.step comments c ≠ .word := by
  have hnum := Unicode.isNumeric_of_isWhiteSpace h
  have halpha := Unicode.isAlphabetic_of_isWhiteSpace h
  rw [State.step, hnum, halpha]
  split
  · split <;> simp
  · split
    · split <;> simp
    · simp only [Bool.false_eq_true, if_false]
      split
      · simp
      · split <;> simp

lemma head?_trace {comments : Bool} {s t : State} {text : List Char} {c : Char}
    (h : (trace comments s text).head? = some (t, c)) :
    text.head? = some c ∧ t = s.step comments c := by
  cases text with
  | nil => simp [trace] at h
  | cons d rest =>
    simp only [trace, List.head?_cons, Option.some.injEq, Prod.mk.injEq] at h
    obtain ⟨rfl, rfl⟩ := h
    exact ⟨rfl, rfl⟩

lemma getLast?_trace {comments : Bool} {s t : State} {text : List Char} {c : Char}
    (h : (trace comments s text).getLast? = some (t, c)) :
    text.getLast? = some c ∧ ∃ u : State, t = u.step comments c := by
  rcases List.eq_nil_or_concat text with rfl | ⟨a, d, rfl⟩
  · simp [trace] at h
  · rw [List.concat_eq_append, trace_append] at h
    simp only [trace, List.getLast?_append, List.getLast?_singleton, Option.some_or,
      Option.some.injEq, Prod.mk.injEq] at h
    obtain ⟨rfl, rfl⟩ := h
    exact ⟨by simp, _, rfl⟩

/-! ## Cells from traces -/

/-- Each character of a trace with the tag of the run it is in. -/
def paint (tr : List (State × Char)) : List Cell :=
  (runs tr).flatMap fun r => r.2.map fun c => ⟨c, r.1.tag r.2⟩

/-- Only a word is looked up. -/
lemma State.tag_of_ne_word {s : State} (h : s ≠ .word) (a b : List Char) : s.tag a = s.tag b := by
  cases s <;> first | rfl | exact absurd rfl h

/-- Traces can be painted apart where no word runs over the border between them. -/
lemma paint_append {xs ys : List (State × Char)}
    (h : ∀ c d, xs.getLast? = some (.word, c) → ys.head? ≠ some (.word, d)) :
    paint (xs ++ ys) = paint xs ++ paint ys := by
  rcases runs_append xs ys with hrun | ⟨rs, key, a, b, ss, hxs, hys, hrun⟩
  · rw [paint, hrun, List.flatMap_append, ← paint, ← paint]
  · obtain ⟨c, hc⟩ := getLast?_of_runs_eq_append hxs
    obtain ⟨d, hd⟩ := head?_of_runs_eq_cons hys
    have hkey : key ≠ .word := by
      rintro rfl
      exact h c d hc hd
    rw [paint, paint, paint, hrun, hxs, hys]
    simp only [List.flatMap_append, List.flatMap_cons, List.flatMap_nil, List.append_nil,
      List.map_append, List.append_assoc]
    rw [State.tag_of_ne_word hkey (a ++ b) a, State.tag_of_ne_word hkey a b]

/-- The cell has the character, and its tag is one that the state can give. -/
def Tinted (cell : Cell) (p : State × Char) : Prop :=
  cell.char = p.2 ∧ ∃ text, cell.tag = p.1.tag text

lemma forall₂_paint (tr : List (State × Char)) : List.Forall₂ Tinted (paint tr) tr := by
  have hruns : ∀ rs : List (State × List Char),
      List.Forall₂ Tinted (rs.flatMap fun r => r.2.map fun c => ⟨c, r.1.tag r.2⟩)
        (rs.flatMap fun r => r.2.map (Prod.mk r.1)) := by
    intro rs
    induction rs with
    | nil => exact List.Forall₂.nil
    | cons r rest ih =>
      rw [List.flatMap_cons, List.flatMap_cons]
      refine List.rel_append ?_ ih
      rw [List.forall₂_map_left_iff, List.forall₂_map_right_iff]
      exact List.forall₂_same.2 fun c _ => ⟨rfl, r.2, rfl⟩
  have h := hruns (runs tr)
  rwa [flatMap_runs] at h

end Scanner

/-! ## The outcome of a scan -/

/-- White space stands on one side at least of the border between two texts, or one of them is
empty. -/
def Seam (a b : List Char) : Prop :=
  ∀ c d, a.getLast? = some c → b.head? = some d →
    Unicode.isWhiteSpace c = true ∨ Unicode.isWhiteSpace d = true

lemma seam_of_endsBlank {a : List Char} (h : Text.endsBlank a = true) (b : List Char) :
    Seam a b := by
  intro c d hc _
  left
  simpa [Text.endsBlank, hc] using h

/-- The characters of cells. -/
def textOf (cells : List Cell) : List Char :=
  cells.map (·.char)

@[simp] lemma textOf_nil : textOf [] = [] := rfl

@[simp] lemma textOf_append (x y : List Cell) : textOf (x ++ y) = textOf x ++ textOf y :=
  List.map_append

@[simp] lemma length_textOf (x : List Cell) : (textOf x).length = x.length :=
  List.length_map _

lemma length_textOf_append (x : List Cell) (t : List Char) :
    (textOf x ++ t).length = x.length + t.length := by
  rw [List.length_append, length_textOf]

lemma textOf_take (x : List Cell) (n : Nat) : textOf (x.take n) = (textOf x).take n :=
  List.map_take

lemma textOf_drop (x : List Cell) (n : Nat) : textOf (x.drop n) = (textOf x).drop n :=
  List.map_drop

/-- The cells of a text that is read from the state `s` on. -/
def classify (comments : Bool) (s : Scanner.State) (text : List Char) : List Cell :=
  Scanner.paint (Scanner.trace comments s text)

section Classify

variable {comments : Bool} {s t : Scanner.State} {a b text : List Char}

@[simp] lemma classify_nil (comments : Bool) (s : Scanner.State) : classify comments s [] = [] :=
  rfl

lemma forall₂_classify (comments : Bool) (s : Scanner.State) (text : List Char) :
    List.Forall₂ Scanner.Tinted (classify comments s text) (Scanner.trace comments s text) :=
  Scanner.forall₂_paint _

/-- A scan leaves the text as it is. -/
@[simp] lemma textOf_classify (comments : Bool) (s : Scanner.State) (text : List Char) :
    textOf (classify comments s text) = text := by
  have h : List.Forall₂ (fun (cell : Cell) (p : Scanner.State × Char) => cell.char = p.2)
      (classify comments s text) (Scanner.trace comments s text) :=
    (forall₂_classify comments s text).imp fun _ _ hp => hp.1
  have hmap : List.Forall₂ Eq (textOf (classify comments s text))
      ((Scanner.trace comments s text).map Prod.snd) := by
    rw [textOf, List.forall₂_map_left_iff, List.forall₂_map_right_iff]
    exact h
  rw [List.forall₂_eq_eq_eq, Scanner.map_snd_trace] at hmap
  exact hmap

@[simp] lemma length_classify (comments : Bool) (s : Scanner.State) (text : List Char) :
    (classify comments s text).length = text.length := by
  rw [← length_textOf, textOf_classify]

/-- States that read on alike give the same cells. -/
lemma classify_of_carry_eq (h : s.carry = t.carry) (comments : Bool) (text : List Char) :
    classify comments s text = classify comments t text := by
  rw [classify, Scanner.trace_of_carry_eq h, ← classify]

/-- **A scan can be cut at white space.** -/
lemma classify_append (h : Seam a b) (comments : Bool) (s : Scanner.State) :
    classify comments s (a ++ b) =
      classify comments s a ++ classify comments (s.run comments a) b := by
  rw [classify, Scanner.trace_append]
  refine Scanner.paint_append fun c d hc hd => ?_
  obtain ⟨hlast, u, hu⟩ := Scanner.getLast?_trace hc
  obtain ⟨hhead, hd⟩ := Scanner.head?_trace hd
  rcases h c d hlast hhead with hw | hw
  · exact Scanner.State.step_ne_word hw comments u hu.symm
  · exact Scanner.State.step_ne_word hw comments _ hd.symm

lemma take_classify (h : Seam a b) (comments : Bool) (s : Scanner.State) :
    (classify comments s (a ++ b)).take a.length = classify comments s a := by
  rw [classify_append h, List.take_left' (length_classify comments s a)]

lemma drop_classify (h : Seam a b) (comments : Bool) (s : Scanner.State) :
    (classify comments s (a ++ b)).drop a.length = classify comments (s.run comments a) b := by
  rw [classify_append h, List.drop_left' (length_classify comments s a)]

end Classify

/-! ## Cells from tokens -/

/-- The tags that tokens give to their characters. -/
def tagsOf (tokens : List Token) : List Tag :=
  tokens.flatMap fun token => List.replicate token.length token.tag

lemma zipWith_tokensFrom (start : Nat) (rs : List (Scanner.State × List Char)) :
    List.zipWith Cell.mk ((Scanner.tokensFrom start rs).flatMap Token.text)
        (tagsOf (Scanner.tokensFrom start rs)) =
      rs.flatMap fun r => r.2.map fun c => ⟨c, r.1.tag r.2⟩ := by
  induction rs generalizing start with
  | nil => rfl
  | cons r rest ih =>
    have hfirst : List.zipWith Cell.mk r.2 (List.replicate r.2.length (r.1.tag r.2)) =
        r.2.map fun c => ⟨c, r.1.tag r.2⟩ := by
      rw [← List.map_const', List.zipWith_map_right, List.zipWith_self]
    simp only [Scanner.tokensFrom, tagsOf, List.flatMap_cons]
    rw [List.zipWith_append (by simp), hfirst]
    exact congrArg _ (ih _)

/-- Tokens stand for the cells of the text they were made from. -/
lemma zipWith_tokenize (comments : Bool) (s : Scanner.State) (text : List Char) :
    List.zipWith Cell.mk text (tagsOf (tokenize comments s text)) = classify comments s text := by
  have h := zipWith_tokensFrom 0 (runs (Scanner.trace comments s text))
  rw [← tokenize_eq, flatMap_text_tokenize] at h
  exact h

/-- There is one tag for each character. -/
@[simp] lemma length_tagsOf_tokenize (comments : Bool) (s : Scanner.State) (text : List Char) :
    (tagsOf (tokenize comments s text)).length = text.length := by
  have hlen : ∀ (start : Nat) (rs : List (Scanner.State × List Char)),
      (tagsOf (Scanner.tokensFrom start rs)).length =
        ((Scanner.tokensFrom start rs).flatMap Token.text).length := by
    intro start rs
    induction rs generalizing start with
    | nil => rfl
    | cons r rest ih =>
      have ih' := ih (start + r.2.length)
      simp only [tagsOf] at ih'
      simp only [Scanner.tokensFrom, tagsOf, List.flatMap_cons, List.length_append,
        List.length_replicate, ih']
  rw [tokenize_eq, hlen, ← tokenize_eq, flatMap_text_tokenize]

lemma map_tag_classify (comments : Bool) (s : Scanner.State) (text : List Char) :
    (classify comments s text).map (·.tag) = tagsOf (tokenize comments s text) := by
  rw [← zipWith_tokenize, ← List.map_uncurry_zip_eq_zipWith, List.map_map]
  exact List.map_snd_zip (by simp)

/-- Cells are known by their characters and their tags. -/
lemma cells_ext {x y : List Cell} (hchar : textOf x = textOf y)
    (htag : x.map (·.tag) = y.map (·.tag)) : x = y := by
  induction x generalizing y with
  | nil => simpa [textOf] using hchar
  | cons u x ih =>
    cases y with
    | nil => simp [textOf] at hchar
    | cons v y =>
      simp only [textOf, List.map_cons, List.cons.injEq] at hchar htag
      obtain ⟨cu, tu⟩ := u
      obtain ⟨cv, tv⟩ := v
      rw [ih hchar.2 htag.2, show cu = cv from hchar.1, show tu = tv from htag.1]

end MetaPostEditor
