import MetaPostEditor.Proofs.EditPaths

/-!
# Scanning a part as good as scanning the whole

An editor is *fresh* when its tags are those that a scan of its whole text gives.  An edit scans
only a part of the text again.  The main result, `Editor.apply_fresh`, says when this is enough:
behind the end of the line on which the edit ends, the old tags stay, and they are right as long as
the edit leaves the end of that line on the same side of a string.
-/

namespace MetaPostEditor

/-- The tags are those that a scan of the whole text gives. -/
def Editor.Fresh (ed : Editor) : Prop :=
  ed.buffer.tags = tagsOf (tokenize ed.options.comments .normal ed.text)

instance (ed : Editor) : Decidable ed.Fresh :=
  inferInstanceAs (Decidable (_ = _))

lemma Editor.fresh_iff (ed : Editor) :
    ed.Fresh ↔ ed.buffer.cells = classify ed.options.comments .normal ed.buffer.text := by
  rw [Editor.Fresh, Editor.text, ← map_tag_classify]
  constructor
  · intro htags
    exact cells_ext (textOf_classify _ _ _).symm htags
  · intro hcells
    rw [Buffer.tags, ← hcells]

/-! ## Sides of a string -/

namespace Scanner

/-- Where comments are not shown, every quote is on the border of a string. -/
lemma State.inString_step (s : State) (c : Char) :
    (s.step false c).inString = (s.inString != (c == '"')) := by
  have hnum : Unicode.isNumeric '"' = false := by decide +kernel
  have halpha : Unicode.isAlphabetic '"' = false := by decide +kernel
  by_cases hc : c = '"'
  · subst hc
    cases s <;> simp [State.step, State.inString, hnum, halpha]
  · have hother : (c == '"') = false := by simpa using hc
    rw [hother, Bool.bne_false, State.step]
    cases hs : s.inString with
    | true => simp [hc, State.inString]
    | false =>
      simp only [Bool.false_eq_true, if_false, and_false, hc]
      split
      · rfl
      · split <;> rfl

/-- Where comments are not shown, the quotes of a text tell the side of a string it leads to. -/
lemma State.inString_run (s : State) (text : List Char) :
    (s.run false text).inString = (s.inString != (text.count '"' % 2 == 1)) := by
  induction text generalizing s with
  | nil => simp
  | cons c rest ih =>
    rw [State.run_cons, ih, State.inString_step, List.count_cons]
    rcases Nat.mod_two_eq_zero_or_one (rest.count '"') with hn | hn <;>
      cases hc : c == '"' <;> simp [Nat.add_mod, hn]

lemma State.inString_run_eq_iff (s : State) (a b : List Char) :
    (s.run false a).inString = (s.run false b).inString ↔
      a.count '"' % 2 = b.count '"' % 2 := by
  rw [State.inString_run, State.inString_run]
  rcases Nat.mod_two_eq_zero_or_one (a.count '"') with ha | ha <;>
    rcases Nat.mod_two_eq_zero_or_one (b.count '"') with hb | hb <;>
    cases s.inString <;> simp [ha, hb]

lemma State.carry_eq_of_inString_eq {s t : State} (hs : s.Possible false) (ht : t.Possible false)
    (h : s.inString = t.inString) : s.carry = t.carry := by
  cases s <;> cases t <;> simp_all [State.inString, State.carry, State.Possible]

/-- A newline ends a comment, so behind it only the side of a string counts. -/
lemma State.step_newline_eq {comments : Bool} {s t : State} (h : s.inString = t.inString) :
    s.step comments '\n' = t.step comments '\n' := by
  have hnum : Unicode.isNumeric '\n' = false := by decide +kernel
  have halpha : Unicode.isAlphabetic '\n' = false := by decide +kernel
  rw [State.step, State.step, h, hnum, halpha]
  cases t.inString with
  | true => rfl
  | false => simp

end Scanner

/-- The cells behind the reach of an edit are the same for states on the same side of a string. -/
lemma classify_rest_eq {comments : Bool} {s t : Scanner.State} (hs : s.Possible comments)
    (ht : t.Possible comments) (hside : s.inString = t.inString) {rest : List Char}
    (hrest : ∀ c, rest.head? = some c → stops comments c = true) :
    classify comments s rest = classify comments t rest := by
  cases comments with
  | false => exact classify_of_carry_eq (Scanner.State.carry_eq_of_inString_eq hs ht hside) _ _
  | true =>
    cases rest with
    | nil => rfl
    | cons c rest =>
      have hc : c = '\n' := by simpa [stops] using hrest c rfl
      rw [classify, classify, Scanner.trace, Scanner.trace, hc,
        Scanner.State.step_newline_eq hside]

/-- The side at the end of the line tells the side at the end of the reach. -/
lemma inString_reach_eq {comments : Bool} {a b tail : List Char}
    (h : (Scanner.State.normal.run comments (a ++ tail.takeWhile (· != '\n'))).inString =
      (Scanner.State.normal.run comments (b ++ tail.takeWhile (· != '\n'))).inString) :
    (Scanner.State.normal.run comments (a ++ reach comments tail)).inString =
      (Scanner.State.normal.run comments (b ++ reach comments tail)).inString := by
  cases comments with
  | true => exact h
  | false =>
    rw [Scanner.State.inString_run_eq_iff, List.count_append, List.count_append] at h ⊢
    omega

/-! ## Edits -/

lemma Edit.count_quote_of_isWhiteSpace {text : List Char}
    (h : ∀ c ∈ text, Unicode.isWhiteSpace c = true) : text.count '"' = 0 := by
  refine List.count_eq_zero.2 fun hmem => ?_
  exact absurd (h _ hmem) (by decide)

/-- Indentations hold no quotes, so the quotes before the caret are those before the place and those
that the edit inserts. -/
lemma Edit.count_quote_outcome (e : Edit) (o : Options) (a removed : List Char) :
    (e.outcome o a removed).count '"' = a.count '"' + e.inserted.count '"' := by
  rw [Edit.outcome]
  split
  · next he =>
    have hnil : e.inserted = [] := by
      simp only [Edit.isDeletion, Bool.and_eq_true, List.isEmpty_iff] at he
      exact he.2
    rw [hnil, List.count_nil, Nat.add_zero]
    split
    · next hback =>
      obtain ⟨a₀, l, rfl, hend, hl⟩ := Indentation.exists_lastLine a
      have hline : l.count '"' = 0 := by
        refine count_quote_of_isWhiteSpace (List.all_eq_true.1 ?_)
        rw [goesBack, Bool.and_eq_true, Indentation.blankBefore_of_newline hend hl] at hback
        exact hback.2
      have hindent : (Indentation.shallowerBefore (a₀ ++ l) (a₀ ++ l).length).count '"' = 0 :=
        count_quote_of_isWhiteSpace fun c hc =>
          Indentation.isWhiteSpace_of_mem_shallowerBefore hc
      rw [Indentation.lineStart_of_newline hend hl, List.take_left, List.count_append, hindent,
        List.count_append, hline]
    · rfl
  · split
    · next hnew =>
      have hins : e.inserted = ['\n'] := by
        simp only [Bool.and_eq_true, Edit.isNewline, beq_iff_eq] at hnew
        exact hnew.1
      have hindent : (Indentation.before a a.length).count '"' = 0 :=
        count_quote_of_isWhiteSpace fun c hc => Indentation.isWhiteSpace_of_mem_before hc
      rw [hins, List.count_append, List.count_cons, hindent]
      rfl
    · rw [List.count_append]

/-- If the end of the reach stays on its side of a string, an edit of a text that is tagged as one
scan tags it leaves it tagged so. -/
lemma Draft.Makes.fresh_again {comments : Bool} {d d' : Draft} {head before tail : List Char}
    {y : List Cell} (h : Makes comments d d' head y)
    (hfresh : d.buffer.cells = classify comments .normal (before ++ tail))
    (hy : y = d.buffer.cells.drop before.length)
    (hside : (Scanner.State.normal.run comments (before ++ reach comments tail)).inString =
      (Scanner.State.normal.run comments (head ++ reach comments tail)).inString) :
    d'.buffer.cells = classify comments .normal d'.buffer.text := by
  have htail : textOf y = tail := by
    rw [hy, textOf_drop, hfresh, textOf_classify, List.drop_left]
  have htext : d.buffer.text = before ++ tail := by
    rw [Buffer.text_eq, hfresh, textOf_classify]
  have hcells := h.fresh (by rw [htext, hfresh])
  rw [htail] at hcells
  obtain ⟨rest, hrest, hstop⟩ := exists_reach comments tail
  rw [h.text, htail, hcells]
  generalize reach comments tail = r at hrest hside
  have hseam := seam_of_stops hstop
  have hpossible : ∀ a, (Scanner.State.normal.run comments a).Possible comments :=
    fun a => Scanner.State.possible_run (Scanner.State.possible_normal comments) a
  have hold : y.drop r.length =
      classify comments (Scanner.State.normal.run comments (before ++ r)) rest := by
    rw [hy, List.drop_drop, ← List.length_append, hfresh, hrest, ← List.append_assoc]
    exact drop_classify (hseam _) comments .normal
  rw [hold, hrest, classify_rest_eq (hpossible _) (hpossible _) hside hstop,
    ← classify_append (hseam _), List.append_assoc]

namespace Editor

variable {ed : Editor}

/-- The cells before the place of an edit, those that it removes, and those behind them. -/
lemma cells_of_edit (ed : Editor) {e : Edit} (hin : e.position + e.deleted ≤ ed.buffer.length) :
    ed.buffer.cells =
        ed.buffer.cells.take e.position ++ (ed.buffer.cells.drop e.position).take e.deleted ++
          ed.buffer.cells.drop (e.position + e.deleted) ∧
      e.position = (ed.buffer.cells.take e.position).length ∧
      e.deleted = ((ed.buffer.cells.drop e.position).take e.deleted).length := by
  rw [Buffer.length_eq] at hin
  refine ⟨?_, ?_, ?_⟩
  · rw [List.append_assoc, ← List.drop_drop, List.take_append_drop, List.take_append_drop]
  · rw [List.length_take_of_le (by omega)]
  · rw [List.length_take_of_le (by rw [List.length_drop]; omega)]

/-- What is made of the outcome of an edit. -/
lemma apply_of_edit {e : Edit} (hin : e.position + e.deleted ≤ ed.buffer.length) {d : Draft}
    {caret : Nat} (hd : (Draft.mk ed.buffer []).edit ed.options e = .ok (d, caret)) :
    ed.apply e = .ok (caret,
      { ed with
        buffer := d.buffer
        history := (d.changes.foldl History.record
          (ed.history.begin ed.caret ed.options.comments)).commit caret
        caret }) := by
  rw [apply, if_neg (Nat.not_lt.2 hin), make]
  simp only [hd, bind, Except.bind, pure, Except.pure]

/-- An edit that lies in the text is made on a draft. -/
lemma edit_eq (ed : Editor) (e : Edit) (hin : e.position + e.deleted ≤ ed.buffer.length) :
    ∃ (d : Draft) (head : List Char),
      head = e.outcome ed.options (ed.text.take e.position)
        ((ed.text.drop e.position).take e.deleted) ∧
      (Draft.mk ed.buffer []).edit ed.options e = .ok (d, head.length) ∧
      Draft.Makes ed.options.comments ⟨ed.buffer, []⟩ d head
        (ed.buffer.cells.drop (e.position + e.deleted)) := by
  obtain ⟨hsplit, hpos, hdel⟩ := ed.cells_of_edit hin
  obtain ⟨d, hd, hmakes⟩ := Draft.edit_spec (d := ⟨ed.buffer, []⟩) hsplit ed.options hpos hdel
  rw [textOf_take, textOf_take, textOf_drop] at hd hmakes
  exact ⟨d, _, rfl, hd, hmakes⟩

/-- An edit that lies in the text is made, and put into the history. -/
lemma apply_eq (ed : Editor) (e : Edit) (hin : e.position + e.deleted ≤ ed.buffer.length) :
    ∃ (d : Draft) (head : List Char),
      head = e.outcome ed.options (ed.text.take e.position)
        ((ed.text.drop e.position).take e.deleted) ∧
      Draft.Makes ed.options.comments ⟨ed.buffer, []⟩ d head
        (ed.buffer.cells.drop (e.position + e.deleted)) ∧
      ed.apply e = .ok (head.length,
        { ed with
          buffer := d.buffer
          history := (d.changes.foldl History.record
            (ed.history.begin ed.caret ed.options.comments)).commit head.length
          caret := head.length }) := by
  obtain ⟨d, head, hhead, hd, hmakes⟩ := ed.edit_eq e hin
  exact ⟨d, head, hhead, hmakes, apply_of_edit hin hd⟩

/-- **Scanning a part is as good as scanning the whole.**  Let an edit of a fresh editor lie in the
text.  It is made, and the text behind what it removes stays.  If a scan of the whole text is inside
a string at the end of the line where the edit ends exactly when it was so before the edit, the
editor is fresh again.  Where comments are not shown, it is so in particular after an edit that
inserts as many quotes as it removes, up to an even number. -/
theorem apply_fresh (ed : Editor) (e : Edit) (hfresh : ed.Fresh)
    (hin : e.position + e.deleted ≤ ed.buffer.length) :
    ∃ caret ed' head, ed.apply e = .ok (caret, ed') ∧ ed'.options = ed.options ∧
      ed'.text = head ++ ed.text.drop (e.position + e.deleted) ∧
      ((Scanner.State.normal.run ed.options.comments (ed.text.take (e.position + e.deleted) ++
            (ed.text.drop (e.position + e.deleted)).takeWhile (· != '\n'))).inString =
          (Scanner.State.normal.run ed.options.comments (head ++
            (ed.text.drop (e.position + e.deleted)).takeWhile (· != '\n'))).inString →
        ed'.Fresh) ∧
      (ed.options.comments = false →
        ((ed.text.drop e.position).take e.deleted).count '"' % 2 = e.inserted.count '"' % 2 →
        ed'.Fresh) := by
  obtain ⟨d, head, hhead, hmakes, happly⟩ := ed.apply_eq e hin
  let n := e.position + e.deleted
  have hcells : ed.buffer.cells =
      classify ed.options.comments .normal (ed.text.take n ++ ed.text.drop n) := by
    rw [List.take_append_drop]
    exact ed.fresh_iff.1 hfresh
  have hlen : n = (ed.text.take n).length := by
    rw [List.length_take_of_le]
    exact (Buffer.length_text ed.buffer).symm ▸ hin
  have htail : textOf (ed.buffer.cells.drop n) = ed.text.drop n := textOf_drop _ _
  have hagain : ∀ ed' : Editor, ed'.buffer = d.buffer → ed'.options = ed.options →
      (Scanner.State.normal.run ed.options.comments
          (ed.text.take n ++ (ed.text.drop n).takeWhile (· != '\n'))).inString =
        (Scanner.State.normal.run ed.options.comments
          (head ++ (ed.text.drop n).takeWhile (· != '\n'))).inString → ed'.Fresh := by
    intro ed' hbuffer hoptions hline
    rw [ed'.fresh_iff, hbuffer, hoptions]
    exact hmakes.fresh_again hcells (by rw [← hlen]) (inString_reach_eq hline)
  refine ⟨head.length, _, head, happly, rfl, ?_, hagain _ rfl rfl, fun hcomments hquotes => ?_⟩
  · rw [← htail]
    exact hmakes.text
  · refine hagain _ rfl rfl ?_
    have hbefore : ed.text.take n = ed.text.take e.position ++
        (ed.text.drop e.position).take e.deleted := List.take_add
    rw [hcomments, Scanner.State.inString_run_eq_iff, List.count_append, List.count_append,
      hbefore, List.count_append, hhead, Edit.count_quote_outcome]
    omega

/-- The opening quote of a string moves away from the word before it, which it cut in two. -/
theorem apply_fresh_moved_quote :
    (ofText ['f', 'i', '"', 'i', 'f', '"', ' ', '1']).Fresh ∧
      1 + 2 ≤ (ofText ['f', 'i', '"', 'i', 'f', '"', ' ', '1']).buffer.length ∧
      ∃ caret ed', (ofText ['f', 'i', '"', 'i', 'f', '"', ' ', '1']).apply
        ⟨1, 2, [' ', 'i', '"']⟩ = .ok (caret, ed') ∧ ed'.Fresh := by
  refine ⟨by decide, by decide, ?_⟩
  obtain ⟨caret, ed', -, happly, -, -, -, hquotes⟩ :=
    apply_fresh (ofText ['f', 'i', '"', 'i', 'f', '"', ' ', '1']) ⟨1, 2, [' ', 'i', '"']⟩
      (by decide) (by decide)
  exact ⟨caret, ed', happly, hquotes rfl (by decide)⟩

end Editor
end MetaPostEditor
