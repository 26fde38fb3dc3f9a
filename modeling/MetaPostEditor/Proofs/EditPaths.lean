import MetaPostEditor.Proofs.Lines
import MetaPostEditor.Proofs.Rescanning

/-!
# What an edit does to the text and the tags

An edit that lies in the text is always made.  The text behind what it removes stays, and what
stands before that text afterwards, up to the caret, is `Edit.outcome`.  `Draft.edit_spec` says so
for any tags.  It also says which tags are right after an edit of a text that was tagged as one
scan tags it: those up to the end of the edit's reach, while behind it the old ones are kept.
-/

namespace MetaPostEditor

/-- Backspace over `removed`, with `a` before it, goes back to a shallower indentation. -/
def goesBack (outdent : Bool) (a removed : List Char) : Bool :=
  outdent && removed.all Unicode.isWhiteSpace && !(Indentation.before a a.length).isEmpty
    && Indentation.blankBefore a a.length

/-- What stands before the caret after an edit that removes `removed` behind `a`. -/
def Edit.outcome (e : Edit) (o : Options) (a removed : List Char) : List Char :=
  if e.isDeletion then
    if goesBack o.outdent a removed then
      a.take (Indentation.lineStart a a.length) ++ Indentation.shallowerBefore a a.length
    else a
  else if e.isNewline && o.autoindent then a ++ '\n' :: Indentation.before a a.length
  else a ++ e.inserted

/-! ## A text tagged as one scan tags it -/

section Fresh

variable {comments : Bool} {x₀ w y : List Cell} {text : List Char}

lemma Scanner.State.Possible.carry {s : Scanner.State} (h : s.Possible comments) :
    s.carry.Possible comments := by
  intro hs
  refine h ?_
  cases s <;> first | rfl | simp [Scanner.State.carry] at hs

lemma carryOf_of_fresh (h : x₀ ++ y = classify comments .normal text) :
    carryOf x₀ = (Scanner.State.normal.run comments (textOf x₀)).carry := by
  have htext : text = textOf x₀ ++ textOf y := by
    rw [← textOf_append, h, textOf_classify]
  have hcarry := carryOf_take_classify comments (textOf x₀) (textOf y)
  rwa [← htext, ← h, length_textOf, List.take_left] at hcarry

lemma possible_carryOf_of_fresh (h : x₀ ++ y = classify comments .normal text) :
    (carryOf x₀).Possible comments := by
  rw [carryOf_of_fresh h]
  exact (Scanner.State.possible_run (Scanner.State.possible_normal comments) _).carry

lemma carryOf_word_of_fresh (h : x₀ ++ w ++ y = classify comments .normal text) :
    carryOf (x₀ ++ w) = ((carryOf x₀).run comments (textOf w)).carry := by
  have hx₀ : carryOf x₀ = (Scanner.State.normal.run comments (textOf x₀)).carry :=
    carryOf_of_fresh (by rw [← h, List.append_assoc])
  rw [carryOf_of_fresh h, textOf_append, Scanner.State.run_append, hx₀]
  exact Scanner.State.run_carry_of_carry_eq (Scanner.State.carry_carry _).symm comments _

/-- Behind a closed beginning the scan of a text goes on as from the state read off the tags. -/
lemma append_classify_of_fresh (h : x₀ ++ y = classify comments .normal text)
    (hx : Closed (textOf x₀)) (t : List Char) :
    x₀ ++ classify comments (carryOf x₀) t = classify comments .normal (textOf x₀ ++ t) := by
  have htext : text = textOf x₀ ++ textOf y := by
    rw [← textOf_append, h, textOf_classify]
  have hx₀ : x₀ = classify comments .normal (textOf x₀) := by
    have htake := take_classify (hx.seam (textOf y)) comments .normal
    rwa [← htext, ← h, length_textOf, List.take_left] at htake
  rw [classify_append (hx.seam t), ← hx₀, carryOf_of_fresh h,
    classify_of_carry_eq (Scanner.State.carry_carry _)]

end Fresh

/-! ## White space at the start of a line -/

lemma closed_of_newline {a : List Char} (h : a = [] ∨ a.getLast? = some '\n') : Closed a := by
  intro c hc
  rcases h with rfl | hnewline
  · simp at hc
  · rw [hnewline, Option.some.injEq] at hc
    rw [← hc, isWhiteSpace_newline]

namespace Scanner

variable {s : State}

lemma State.step_newline_ne_comment (comments : Bool) (s : State) :
    s.step comments '\n' ≠ .comment := by
  have hnum : Unicode.isNumeric '\n' = false := by decide +kernel
  have halpha : Unicode.isAlphabetic '\n' = false := by decide +kernel
  rw [State.step, hnum, halpha]
  split
  · simp
  · split <;> simp

lemma State.step_carry_of_isWhiteSpace {c : Char} (hc : Unicode.isWhiteSpace c = true)
    (hs : s.carry ≠ .comment) (comments : Bool) : (s.step comments c).carry = s.carry := by
  have hnum := Unicode.isNumeric_of_isWhiteSpace hc
  have halpha := Unicode.isAlphabetic_of_isWhiteSpace hc
  have hquote : c ≠ '"' := by
    rintro rfl
    exact absurd hc (by decide)
  have hpercent : c ≠ '%' := by
    rintro rfl
    exact absurd hc (by decide)
  cases s with
  | comment => exact absurd rfl hs
  | _ => simp [State.step, State.inString, hnum, halpha, hquote, hpercent, State.carry]

/-- White space that is not in a comment leaves the scanner on the side it is on. -/
lemma State.run_carry_of_isWhiteSpace {text : List Char}
    (h : ∀ c ∈ text, Unicode.isWhiteSpace c = true) (hs : s.carry ≠ .comment)
    (comments : Bool) : (s.run comments text).carry = s.carry := by
  induction text generalizing s with
  | nil => rfl
  | cons c rest ih =>
    have hstep := State.step_carry_of_isWhiteSpace (h c (by simp)) hs comments
    rw [State.run_cons, ih (fun d hd => h d (by simp [hd])) (by rwa [hstep]), hstep]

/-- No comment goes on behind a newline. -/
lemma State.run_carry_ne_comment {a : List Char} (h : a = [] ∨ a.getLast? = some '\n')
    (comments : Bool) : (State.normal.run comments a).carry ≠ .comment := by
  rcases h with rfl | h
  · simp [State.carry]
  · rcases List.eq_nil_or_concat a with rfl | ⟨b, c, rfl⟩
    · simp at h
    · have hc : c = '\n' := by simpa using h
      rw [List.concat_eq_append, State.run_append, hc, State.run_cons, State.run_nil]
      have hne := State.step_newline_ne_comment comments (State.normal.run comments b)
      generalize (State.normal.run comments b).step comments '\n' = t at hne
      cases t <;> simp_all [State.carry]

end Scanner

/-! ## Backspace -/

namespace Draft

variable {d : Draft}

lemma backspace_eq {x m y : List Cell} (h : d.buffer.cells = x ++ m ++ y)
    (comments outdent : Bool) :
    ∃ d₁, d.Grows d₁ ∧ d₁.buffer.cells = x ++ y ∧
      d.backspace comments outdent x.length (x.length + m.length) =
        if goesBack outdent (textOf x) (textOf m) then do
          let indent := Indentation.shallowerBefore (textOf x) x.length
          let start := Indentation.lineStart (textOf x) x.length
          let d₂ ← d₁.replace start x.length (d₁.scanAt comments start indent)
          return (d₂, start + indent.length)
        else d₁.insert comments x.length [] := by
  obtain ⟨d₁, hd₁, hgrows, hcells⟩ := remove_split h
  refine ⟨d₁, hgrows, hcells, ?_⟩
  have htext : d₁.buffer.text = textOf x ++ textOf y := by
    rw [Buffer.text_eq, hcells, textOf_append]
  have hblank : (m.all fun cell => Unicode.isWhiteSpace cell.char) =
      (textOf m).all Unicode.isWhiteSpace := by
    rw [textOf, List.all_map]
    rfl
  have hx : x.length = (textOf x).length := (length_textOf x).symm
  rw [backspace, Buffer.cellsIn_split h, hblank, hd₁]
  simp only [bind, Except.bind, htext]
  rw [goesBack, hx, Indentation.before_append, Indentation.blankBefore_append,
    Indentation.lineStart_append, Indentation.shallowerBefore_append]

/-- Backspace in an indentation puts a shallower one in its place. -/
lemma backspace_back {outdent : Bool} {x m y : List Cell} (h : d.buffer.cells = x ++ m ++ y)
    (hback : goesBack outdent (textOf x) (textOf m) = true) (comments : Bool) :
    ∃ d' x₁ l, x = x₁ ++ l ∧ x₁.length = Indentation.lineStart (textOf x) x.length ∧
      (textOf x₁ = [] ∨ (textOf x₁).getLast? = some '\n') ∧
      (∀ c ∈ textOf l, Unicode.isWhiteSpace c = true) ∧
      d.backspace comments outdent x.length (x.length + m.length) =
        .ok (d', x₁.length + (Indentation.shallowerBefore (textOf x) x.length).length) ∧
      d.Grows d' ∧
      d'.buffer.cells = x₁ ++
        classify comments (carryOf x₁) (Indentation.shallowerBefore (textOf x) x.length) ++ y := by
  obtain ⟨d₁, hgrows₁, hcells₁, heq⟩ := backspace_eq h comments outdent
  -- the indentation is what stands on the line before the place
  obtain ⟨a₀, v, ha, hend, hv⟩ := Indentation.exists_lastLine (textOf x)
  have hstart := Indentation.lineStart_of_newline hend hv
  have hblank := Indentation.blankBefore_of_newline hend hv
  rw [← ha, length_textOf] at hstart hblank
  have hsplit : x = x.take a₀.length ++ x.drop a₀.length := (List.take_append_drop _ _).symm
  have hfirst : textOf (x.take a₀.length) = a₀ := by
    rw [textOf_take, ha, List.take_left]
  have hlast : textOf (x.drop a₀.length) = v := by
    rw [textOf_drop, ha, List.drop_left]
  have hlen : (x.take a₀.length).length = a₀.length := by
    rw [← length_textOf, hfirst]
  generalize x.take a₀.length = x₁ at hsplit hfirst hlen
  generalize x.drop a₀.length = l at hsplit hlast
  have hcells₁' : d₁.buffer.cells = x₁ ++ l ++ y := by rw [hcells₁, hsplit]
  obtain ⟨d₂, hd₂, hgrows₂, hcells₂⟩ := replace_split hcells₁' comments (carryOf x₁)
    (Indentation.shallowerBefore (textOf x) x.length)
  have hstate : d₁.buffer.stateAt x₁.length = carryOf x₁ := by
    rw [Buffer.stateAt_eq_carryOf, hcells₁', List.append_assoc, List.take_left]
  refine ⟨d₂, x₁, l, hsplit, by rw [hlen, hstart], by rwa [hfirst], ?_, ?_,
    hgrows₁.trans hgrows₂, hcells₂⟩
  · intro c hc
    rw [goesBack, Bool.and_eq_true, length_textOf, hblank, ← hlast] at hback
    exact List.all_eq_true.1 hback.2 c hc
  · have hwhole : x.length = x₁.length + l.length := by rw [hsplit, List.length_append]
    rw [← hwhole] at hd₂
    rw [heq, if_pos hback]
    simp only [hstart, ← hlen, scanAt, hstate, hd₂, bind, Except.bind]
    rfl

/-- Any other removal brings the word up to date in which it leaves the caret. -/
lemma backspace_word {outdent : Bool} {x₀ w m y : List Cell}
    (h : d.buffer.cells = x₀ ++ w ++ m ++ y) (hx : Closed (textOf x₀)) (hw : Solid (textOf w))
    (hback : goesBack outdent (textOf (x₀ ++ w)) (textOf m) = false) (comments : Bool) :
    ∃ d', d.backspace comments outdent (x₀ ++ w).length ((x₀ ++ w).length + m.length) =
        .ok (d', (x₀ ++ w).length) ∧
      d.Grows d' ∧
      d'.buffer.cells =
        x₀ ++ classify comments (carryOf x₀) (textOf w ++ reach comments (textOf y)) ++
          y.drop (reach comments (textOf y)).length := by
  obtain ⟨d₁, hgrows₁, hcells₁, heq⟩ := backspace_eq h comments outdent
  obtain ⟨d₂, hd₂, hgrows₂, hcells₂⟩ := insert_nil_spec hcells₁ hx hw comments
  refine ⟨d₂, ?_, hgrows₁.trans hgrows₂, hcells₂⟩
  rw [heq, hback]
  exact hd₂

/-! ## Edits -/

lemma edit_of_isDeletion (o : Options) {e : Edit} (he : e.isDeletion = true) :
    d.edit o e = d.backspace o.comments o.outdent e.position (e.position + e.deleted) := by
  rw [edit]
  simp only [he, if_true]

/-- An edit that inserts something removes first what it removes. -/
lemma edit_of_not_isDeletion {x m y : List Cell} (h : d.buffer.cells = x ++ m ++ y)
    (o : Options) {e : Edit} (hpos : e.position = x.length) (hdel : e.deleted = m.length)
    (he : e.isDeletion = false) :
    ∃ d₁, d.Grows d₁ ∧ d₁.buffer.cells = x ++ y ∧
      d.edit o e =
        if e.isNewline && o.autoindent then d₁.newline o.comments x.length
        else d₁.insertText o.comments x.length e.inserted := by
  rcases Nat.eq_zero_or_pos e.deleted with hzero | hsome
  · have hm : m = [] := List.length_eq_zero_iff.1 (hdel ▸ hzero)
    refine ⟨d, Grows.refl d, by rw [h, hm, List.append_nil], ?_⟩
    rw [edit]
    simp [he, hzero, hpos]
  · obtain ⟨d₁, hd₁, hgrows, hcells⟩ := remove_split h
    refine ⟨d₁, hgrows, hcells, ?_⟩
    have hm : m.length > 0 := hdel ▸ hsome
    rw [edit]
    simp only [he, Bool.false_eq_true, if_false, hm, if_true, hpos, hdel, hd₁, bind, Except.bind]

/-- An edit has made `d'` from `d`: `head` stands before the caret and the cells `y` were behind
the place. -/
structure Makes (comments : Bool) (d d' : Draft) (head : List Char) (y : List Cell) : Prop where
  grows : d.Grows d'
  text : d'.buffer.text = head ++ textOf y
  /-- If the tags were those that a scan of the whole text gives, they are so again up to the end of
  the reach. -/
  fresh : d.buffer.cells = classify comments .normal d.buffer.text →
    d'.buffer.cells = classify comments .normal (head ++ reach comments (textOf y)) ++
      y.drop (reach comments (textOf y)).length

lemma Makes.length_le {comments : Bool} {d' : Draft} {head : List Char} {y : List Cell}
    (h : Makes comments d d' head y) : head.length ≤ d'.buffer.length := by
  rw [← Buffer.length_text, h.text, List.length_append]
  omega

/-- One scan from the beginning of a word brings the tags up to date. -/
lemma makes_of_scan {comments : Bool} {d' : Draft} {x₀ w m y : List Cell} {t : List Char}
    (h : d.buffer.cells = x₀ ++ w ++ m ++ y) (hx : Closed (textOf x₀)) (hgrows : d.Grows d')
    (htext : d'.buffer.text = textOf (x₀ ++ w) ++ t ++ textOf y)
    (hcells : carryOf (x₀ ++ w) = ((carryOf x₀).run comments (textOf w)).carry →
      (carryOf x₀).Possible comments →
      d'.buffer.cells =
        x₀ ++ classify comments (carryOf x₀) (textOf w ++ t ++ reach comments (textOf y)) ++
          y.drop (reach comments (textOf y)).length) :
    Makes comments d d' (textOf (x₀ ++ w) ++ t) y := by
  refine ⟨hgrows, htext, fun hfresh => ?_⟩
  rw [h] at hfresh
  have hword : x₀ ++ w ++ (m ++ y) = classify comments .normal d.buffer.text := by
    rw [← hfresh, List.append_assoc (x₀ ++ w)]
  have hfirst : x₀ ++ (w ++ (m ++ y)) = classify comments .normal d.buffer.text := by
    rw [← hword, List.append_assoc x₀]
  rw [hcells (carryOf_word_of_fresh hword) (possible_carryOf_of_fresh hfirst),
    append_classify_of_fresh hfirst hx, textOf_append]
  simp only [List.append_assoc]

/-- Going back to a shallower indentation leaves all tags right. -/
lemma makes_of_back {comments : Bool} {d' : Draft} {x₁ l m y : List Cell} {t : List Char}
    (h : d.buffer.cells = x₁ ++ l ++ m ++ y) (hgrows : d.Grows d')
    (hstart : textOf x₁ = [] ∨ (textOf x₁).getLast? = some '\n')
    (hl : ∀ c ∈ textOf l ++ textOf m, Unicode.isWhiteSpace c = true) (hm : m ≠ [])
    (ht : ∀ c ∈ t, Unicode.isWhiteSpace c = true)
    (hcells : d'.buffer.cells = x₁ ++ classify comments (carryOf x₁) t ++ y) :
    Makes comments d d' (textOf x₁ ++ t) y := by
  refine ⟨hgrows, by rw [Buffer.text_eq, hcells]; simp, fun hfresh => ?_⟩
  have hwhole : d.buffer.text = textOf x₁ ++ (textOf l ++ textOf m) ++ textOf y := by
    rw [Buffer.text_eq, h]
    simp
  have hfirst : x₁ ++ (l ++ m ++ y) = classify comments .normal d.buffer.text := by
    rw [← hfresh, h]
    simp
  have hclosed := closed_of_newline hstart
  -- the white space, old or new, leaves the scanner on the side where the line starts
  have hside : ∀ u : List Char, (∀ c ∈ u, Unicode.isWhiteSpace c = true) →
      (Scanner.State.normal.run comments (textOf x₁ ++ u)).carry =
        (Scanner.State.normal.run comments (textOf x₁)).carry := by
    intro u hu
    rw [Scanner.State.run_append]
    exact Scanner.State.run_carry_of_isWhiteSpace hu
      (Scanner.State.run_carry_ne_comment hstart comments) comments
  have hy : y = classify comments (Scanner.State.normal.run comments (textOf x₁ ++ t))
      (textOf y) := by
    have hseam : Seam (textOf x₁ ++ (textOf l ++ textOf m)) (textOf y) := by
      refine Closed.seam (fun c hc => hl c (List.mem_of_getLast? ?_)) _
      rwa [List.getLast?_append_of_ne_nil _ (by simpa [textOf] using fun _ => hm)] at hc
    have hdrop := drop_classify hseam comments .normal
    rw [← hwhole, ← hfresh, h] at hdrop
    rw [List.drop_left' (by simp)] at hdrop
    refine hdrop.trans ?_
    exact classify_of_carry_eq ((hside _ hl).trans (hside t ht).symm) comments _
  have hhead : Closed (textOf x₁ ++ t) := hclosed.append_of_isWhiteSpace ht
  obtain ⟨rest, hrest, hstop⟩ := exists_reach comments (textOf y)
  rw [hcells, append_classify_of_fresh hfirst hclosed t]
  generalize reach comments (textOf y) = r at hrest
  rw [hrest] at hy
  rw [hy, classify_append (seam_of_stops hstop r), List.drop_left' (length_classify _ _ r),
    ← List.append_assoc, ← classify_append (hhead.seam r)]

/-- An edit that does not go back to a shallower indentation puts a text behind `w` or nothing, and
if the tags of `w` tell the right state, its scans come to one. -/
lemma edit_scan_spec {x₀ w m y : List Cell} (h : d.buffer.cells = x₀ ++ w ++ m ++ y)
    (hx : Closed (textOf x₀)) (hw : Solid (textOf w)) (o : Options) {e : Edit}
    (hpos : e.position = (x₀ ++ w).length) (hdel : e.deleted = m.length)
    (hback : e.isDeletion = true → goesBack o.outdent (textOf (x₀ ++ w)) (textOf m) = false) :
    ∃ d' t, e.outcome o (textOf (x₀ ++ w)) (textOf m) = textOf (x₀ ++ w) ++ t ∧
      d.edit o e = .ok (d', (x₀ ++ w).length + t.length) ∧ d.Grows d' ∧
      d'.buffer.text = textOf (x₀ ++ w) ++ t ++ textOf y ∧
      (carryOf (x₀ ++ w) = ((carryOf x₀).run o.comments (textOf w)).carry →
        (carryOf x₀).Possible o.comments →
        d'.buffer.cells =
          x₀ ++ classify o.comments (carryOf x₀) (textOf w ++ t ++ reach o.comments (textOf y)) ++
            y.drop (reach o.comments (textOf y)).length) := by
  cases he : e.isDeletion with
  | true =>
    obtain ⟨d', hd', hgrows, hcells⟩ := backspace_word h hx hw (hback he) o.comments
    refine ⟨d', [], ?_, ?_, hgrows, ?_, fun _ _ => ?_⟩
    · rw [Edit.outcome, if_pos he, hback he, if_neg Bool.false_ne_true, List.append_nil]
    · rw [edit_of_isDeletion o he, hpos, hdel]
      exact hd'
    · rw [Buffer.text_eq, hcells]
      simp [textOf_drop, reach_append_drop]
    · rw [hcells, List.append_nil]
  | false =>
    obtain ⟨d₁, hgrows₁, hcells₁, heq⟩ := edit_of_not_isDeletion h o hpos hdel he
    rw [heq]
    cases hnew : e.isNewline && o.autoindent with
    | true =>
      have htext₁ : d₁.buffer.text = textOf (x₀ ++ w) ++ textOf y := by
        rw [Buffer.text_eq, hcells₁, textOf_append]
      have hindent : Indentation.before d₁.buffer.text (x₀ ++ w).length =
          Indentation.before (textOf (x₀ ++ w)) (textOf (x₀ ++ w)).length := by
        rw [htext₁, ← length_textOf (x₀ ++ w), Indentation.before_append]
      obtain ⟨d₂, hd₂, hgrows₂, htext₂, hcells₂⟩ :=
        newline_spec hcells₁ hx hw o.comments rfl (Indentation.endsBlank_newline _ _)
      rw [hindent] at hd₂ htext₂ hcells₂
      exact ⟨d₂, _, by simp [Edit.outcome, he, hnew], hd₂, hgrows₁.trans hgrows₂, htext₂, hcells₂⟩
    | false =>
      obtain ⟨d₂, hd₂, hgrows₂, htext₂, hcells₂⟩ :=
        insertText_spec hcells₁ hx hw o.comments e.inserted
      exact ⟨d₂, _, by simp [Edit.outcome, he, hnew], hd₂, hgrows₁.trans hgrows₂, htext₂, hcells₂⟩

/-- **An edit.**  An edit that lies in the text is made, and the caret is then behind its
outcome. -/
lemma edit_spec {x m y : List Cell} (h : d.buffer.cells = x ++ m ++ y) (o : Options) {e : Edit}
    (hpos : e.position = x.length) (hdel : e.deleted = m.length) :
    ∃ d', d.edit o e = .ok (d', (e.outcome o (textOf x) (textOf m)).length) ∧
      Makes o.comments d d' (e.outcome o (textOf x) (textOf m)) y := by
  by_cases hback : e.isDeletion = true ∧ goesBack o.outdent (textOf x) (textOf m) = true
  · obtain ⟨he, hback⟩ := hback
    obtain ⟨d', x₁, l, rfl, hstart, hline, hl, hd', hgrows, hcells⟩ :=
      backspace_back h hback o.comments
    have hout : e.outcome o (textOf (x₁ ++ l)) (textOf m) =
        textOf x₁ ++ Indentation.shallowerBefore (textOf (x₁ ++ l)) (x₁ ++ l).length := by
      rw [Edit.outcome, if_pos he, if_pos hback, length_textOf, ← hstart, ← textOf_take,
        List.take_left]
    rw [edit_of_isDeletion o he, hpos, hdel, hout, length_textOf_append]
    refine ⟨d', hd', makes_of_back h hgrows hline ?_ ?_ ?_ hcells⟩
    · intro c hc
      rcases List.mem_append.1 hc with hc | hc
      · exact hl c hc
      · rw [goesBack, Bool.and_eq_true, Bool.and_eq_true, Bool.and_eq_true] at hback
        exact List.all_eq_true.1 hback.1.1.2 c hc
    · rintro rfl
      simp [Edit.isDeletion, hdel] at he
    · intro c hc
      exact Indentation.isWhiteSpace_of_mem_shallowerBefore hc
  · obtain ⟨x₀, w, rfl, hx, hw⟩ := exists_closed_solid x
    have hword : e.isDeletion = true →
        goesBack o.outdent (textOf (x₀ ++ w)) (textOf m) = false := by
      intro he
      exact Bool.eq_false_iff.2 fun hgoes => hback ⟨he, hgoes⟩
    obtain ⟨d', t, hout, hd', hgrows, htext, hcells⟩ := edit_scan_spec h hx hw o hpos hdel hword
    rw [hout, length_textOf_append]
    exact ⟨d', hd', makes_of_scan h hx hgrows htext hcells⟩

end Draft
end MetaPostEditor
