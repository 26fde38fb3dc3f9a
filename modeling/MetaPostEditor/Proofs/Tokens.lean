import MetaPostEditor.Runs
import MetaPostEditor.Scanner
import Mathlib.Data.List.Basic
import Mathlib.Tactic.Lemma

/-!
# The tokens that a scan makes

A scan makes a token whenever the state changes, and for the last time at the end of the text.  This
file says what comes of it without the course of the scan: beside each character stands the state
that it leads to (`Scanner.trace`), and the tokens are the runs of these states, in order and one
behind the other (`tokenize_eq`).

What is to come of a scan on its way are the tokens it has made, and those of the runs of what it
has kept and of what it will read (`Scanner.Scan.outcome`).  Reading a character does not change it
(`Scanner.Scan.outcome_read`).
-/

namespace MetaPostEditor

/-! ## The runs of two lists, one behind the other -/

section Runs

variable {κ α : Type} [DecidableEq κ]

lemma runs_cons (x : κ × α) (xs : List (κ × α)) : runs (x :: xs) = consRun x (runs xs) := rfl

lemma consRun_append (x : κ × α) (r : κ × List α) (rs ss : List (κ × List α)) :
    consRun x (r :: rs ++ ss) = consRun x (r :: rs) ++ ss := by
  obtain ⟨key, run⟩ := r
  simp only [List.cons_append, consRun]
  split <;> rfl

/-- The runs of two lists stand side by side, unless the last run of the first list and the first
run of the second one have the same key and grow together. -/
lemma runs_append (xs ys : List (κ × α)) :
    runs (xs ++ ys) = runs xs ++ runs ys ∨
      ∃ rs key a b ss, runs xs = rs ++ [(key, a)] ∧ runs ys = (key, b) :: ss ∧
        runs (xs ++ ys) = rs ++ (key, a ++ b) :: ss := by
  induction xs with
  | nil => exact Or.inl rfl
  | cons x xs ih =>
    simp only [List.cons_append, runs_cons]
    rcases ih with ih | ⟨rs, key, a, b, ss, hxs, hys, ih⟩
    · rw [ih]
      cases hxs : runs xs with
      | cons r rs => exact Or.inl (consRun_append x r rs _)
      | nil =>
        -- `x` is the last element of the first list
        cases hys : runs ys with
        | nil => exact Or.inl rfl
        | cons s ss =>
          obtain ⟨key, b⟩ := s
          by_cases hx : x.1 = key
          · exact Or.inr ⟨[], key, [x.2], b, ss, by simp [consRun, hx], rfl,
              by simp [consRun, hx]⟩
          · exact Or.inl (by simp [consRun, hx])
    · rw [ih, hxs]
      right
      cases rs with
      | cons r rs =>
        refine ⟨consRun x (r :: rs), key, a, b, ss, ?_, hys, ?_⟩
        · exact consRun_append x r rs _
        · exact consRun_append x r rs _
      | nil =>
        by_cases hx : x.1 = key
        · exact ⟨[], key, x.2 :: a, b, ss, by simp [consRun, hx], hys, by simp [consRun, hx]⟩
        · exact ⟨[(x.1, [x.2])], key, a, b, ss, by simp [consRun, hx], hys,
            by simp [consRun, hx]⟩

/-- The last element of a list is in its last run. -/
lemma getLast?_of_runs_eq_append {xs : List (κ × α)} {rs : List (κ × List α)} {key : κ}
    {a : List α} (h : runs xs = rs ++ [(key, a)]) : ∃ x, xs.getLast? = some (key, x) := by
  have hmem : (key, a) ∈ runs xs := by simp [h]
  have hne : a ≠ [] := ne_nil_of_mem_runs hmem
  obtain ⟨b, x, rfl⟩ := List.eq_nil_or_concat a |>.resolve_left hne
  have hxs := flatMap_runs xs
  rw [h] at hxs
  refine ⟨x, ?_⟩
  rw [← hxs]
  simp

/-- The first element of a list is in its first run. -/
lemma head?_of_runs_eq_cons {xs : List (κ × α)} {rs : List (κ × List α)} {key : κ}
    {a : List α} (h : runs xs = (key, a) :: rs) : ∃ x, xs.head? = some (key, x) := by
  have hmem : (key, a) ∈ runs xs := by simp [h]
  have hne : a ≠ [] := ne_nil_of_mem_runs hmem
  obtain ⟨x, b, rfl⟩ := List.exists_cons_of_ne_nil hne
  have hxs := flatMap_runs xs
  rw [h] at hxs
  refine ⟨x, ?_⟩
  rw [← hxs]
  simp

/-- A stretch of one key is a run, if another key follows or nothing. -/
lemma runs_map_mk_append {as : List α} (has : as ≠ []) {key : κ} {ys : List (κ × α)}
    (hys : ∀ y, ys.head? = some y → y.1 ≠ key) :
    runs (as.map (Prod.mk key) ++ ys) = (key, as) :: runs ys := by
  induction as with
  | nil => exact absurd rfl has
  | cons a as ih =>
    rw [List.map_cons, List.cons_append, runs_cons]
    cases as with
    | cons b as => rw [ih (List.cons_ne_nil _ _), consRun, if_pos rfl]
    | nil =>
      rw [List.map_nil, List.nil_append]
      cases hruns : runs ys with
      | nil => rfl
      | cons r rs =>
        obtain ⟨y, hy⟩ := head?_of_runs_eq_cons hruns
        rw [consRun, if_neg (Ne.symm (hys _ hy))]

/-- A list in which all keys are the same is one run. -/
lemma runs_map_mk {as : List α} (has : as ≠ []) (key : κ) :
    runs (as.map (Prod.mk key)) = [(key, as)] := by
  have h : runs (as.map (Prod.mk key) ++ []) = (key, as) :: runs [] :=
    runs_map_mk_append has (by simp)
  rwa [List.append_nil] at h

end Runs


namespace Scanner

/-! ## Traces and their tokens -/

/-- Reads a text and notes beside each character the state that it leads to. -/
def trace (comments : Bool) : State → List Char → List (State × Char)
  | _, [] => []
  | s, c :: rest =>
    let s' := s.step comments c
    (s', c) :: trace comments s' rest

/-- A trace has the characters of the text. -/
@[simp]
theorem map_snd_trace (comments : Bool) (s : State) (text : List Char) :
    (trace comments s text).map Prod.snd = text := by
  induction text generalizing s with
  | nil => rfl
  | cons c rest ih => simp [trace, ih]

/-- The second of two texts is read from the state that the first leads to. -/
theorem trace_append (comments : Bool) (s : State) (a b : List Char) :
    trace comments s (a ++ b) =
      trace comments s a ++ trace comments (a.foldl (State.step comments) s) b := by
  induction a generalizing s with
  | nil => rfl
  | cons c rest ih => simp [trace, ih]

/-- Makes tokens of the runs of a trace, the first of which starts at `start`. -/
def tokensFrom : Nat → List (State × List Char) → List Token
  | _, [] => []
  | start, (s, text) :: rest =>
    ⟨s.tag text, text, start, text.length⟩ :: tokensFrom (start + text.length) rest

/-- Tokens have the texts of the runs they are made of. -/
theorem map_text_tokensFrom (start : Nat) (rs : List (State × List Char)) :
    (tokensFrom start rs).map Token.text = rs.map Prod.snd := by
  induction rs generalizing start with
  | nil => rfl
  | cons r rest ih => simp [tokensFrom, ih]

/-! ## Scans on their way -/

lemma State.step_ne_done (comments : Bool) (s : State) (c : Char) : s.step comments c ≠ .done := by
  rw [State.step]
  repeat' split
  all_goals exact State.noConfusion

namespace Scan

variable {scan : Scan} {comments : Bool}

/-- The kept characters are counted, and they have not led to the state behind the end. -/
structure Sound (scan : Scan) : Prop where
  length : scan.length = scan.run.length
  state : scan.run ≠ [] → scan.state ≠ .done

/-- What comes of a scan that has `text` still to read. -/
def outcome (comments : Bool) (scan : Scan) (text : List Char) : List Token :=
  scan.tokens.reverse ++ tokensFrom scan.start
    (runs (scan.run.reverse.map (Prod.mk scan.state) ++ trace comments scan.state text))

lemma sound_begin (s : State) : (begin s).Sound :=
  ⟨rfl, fun h => absurd rfl h⟩

/-- Going over to another state makes a token of what has been kept. -/
lemma enter_of_ne (h : scan.Sound) {next : State} (hnext : next ≠ scan.state) :
    scan.enter next =
      ⟨next, (tokensFrom scan.start
        (runs (scan.run.reverse.map (Prod.mk scan.state)))).reverse ++ scan.tokens, [],
        scan.start + scan.run.length, 0⟩ := by
  rw [enter, if_neg hnext, h.length]
  by_cases hrun : scan.run = []
  · simp [hrun, runs, tokensFrom]
  · have hpos := List.length_pos_iff.2 hrun
    rw [if_pos hpos, runs_map_mk (List.reverse_ne_nil_iff.2 hrun)]
    simp [tokensFrom]

lemma read_of_eq {c : Char} (h : scan.state.step comments c = scan.state) :
    scan.read comments (some c) =
      { scan with run := c :: scan.run, length := scan.length + 1 } := by
  rw [read, State.next, h, enter, if_pos rfl]

lemma sound_read (h : scan.Sound) (comments : Bool) (c : Char) :
    (scan.read comments (some c)).Sound := by
  by_cases hnext : scan.state.step comments c = scan.state
  · rw [read_of_eq hnext]
    exact ⟨congrArg (· + 1) h.length, fun _ => hnext ▸ State.step_ne_done comments _ c⟩
  · rw [read, State.next, enter_of_ne h hnext]
    exact ⟨rfl, fun _ => State.step_ne_done comments _ c⟩

/-- Reading a character leaves what comes of the scan as it is. -/
lemma outcome_read (h : scan.Sound) (comments : Bool) (c : Char) (rest : List Char) :
    (scan.read comments (some c)).outcome comments rest = scan.outcome comments (c :: rest) := by
  by_cases hnext : scan.state.step comments c = scan.state
  · rw [read_of_eq hnext, outcome, outcome, trace, hnext]
    simp
  · -- what has been kept is a run of its own, since the next state is another one
    rw [read, State.next, enter_of_ne h hnext, outcome, outcome, trace]
    by_cases hrun : scan.run = []
    · simp [hrun, runs, tokensFrom]
    · have hne := List.reverse_ne_nil_iff.2 hrun
      rw [runs_map_mk hne, runs_map_mk_append hne (by simpa using hnext)]
      simp [tokensFrom]

/-- At the end of the text what has been kept is made a token. -/
lemma tokens_read_none (h : scan.Sound) (comments : Bool) :
    (scan.read comments none).tokens.reverse = scan.outcome comments [] := by
  rw [read, State.next, outcome, trace, List.append_nil]
  by_cases hdone : State.done = scan.state
  · have hrun : scan.run = [] := by
      by_contra hrun
      exact h.state hrun hdone.symm
    rw [enter, if_pos hdone, hrun]
    simp [runs, tokensFrom]
  · rw [enter_of_ne h hdone]
    simp

/-- The tokens at the end are those that were to come. -/
lemma tokens_foldl (h : scan.Sound) (comments : Bool) (text : List Char) :
    ((text.map some ++ [none]).foldl (read comments) scan).tokens.reverse =
      scan.outcome comments text := by
  induction text generalizing scan with
  | nil => exact tokens_read_none h comments
  | cons c rest ih =>
    rw [List.map_cons, List.cons_append, List.foldl_cons, ih (sound_read h comments c),
      outcome_read h]

end Scan
end Scanner

/-- **The tokens of a scan.**  They are the runs of the states that the characters lead to. -/
lemma tokenize_eq (comments : Bool) (s : Scanner.State) (text : List Char) :
    tokenize comments s text = Scanner.tokensFrom 0 (runs (Scanner.trace comments s text)) :=
  Scanner.Scan.tokens_foldl (Scanner.Scan.sound_begin s) comments text

/-- The texts of the tokens make up the text. -/
theorem flatMap_text_tokenize (comments : Bool) (s : Scanner.State) (text : List Char) :
    (tokenize comments s text).flatMap Token.text = text := by
  have h := congrArg (List.map Prod.snd) (flatMap_runs (Scanner.trace comments s text))
  rw [Scanner.map_snd_trace, List.map_flatMap] at h
  rw [tokenize_eq, List.flatMap_def, Scanner.map_text_tokensFrom, ← List.flatMap_def]
  simpa [Function.comp_def] using h

end MetaPostEditor
