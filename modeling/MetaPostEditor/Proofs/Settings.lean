import MetaPostEditor.Proofs.Operations

/-!
# What setting options does

A text may hold several directives.  They are carried out one after the other, and the first that is
refused ends it.  What was carried out before stays, so the editor has to follow the options also
after a refusal: the tags show comments or not, and the history keeps as many edits as can be undone
now.

`Options.Carries` says what directives lead to that are all accepted.  The main result,
`Editor.set_exactly`, gives the editor after any text of directives.
-/

namespace MetaPostEditor

namespace Options

/-- Directives that are all accepted lead from the values `o` to the values `o'`, and `shown` is
what they show. -/
inductive Carries : Options → List Directive → List String → Options → Prop
  | nil (o : Options) : Carries o [] [] o
  | cons {o o₁ o' : Options} {d : Directive} {ds : List Directive} {message : Option String}
      {shown : List String} (hd : o.apply d = .ok (o₁, message)) (hds : Carries o₁ ds shown o') :
      Carries o (d :: ds) (message.toList ++ shown) o'

variable {o o' : Options} {ds : List Directive} {shown : List String}

lemma applyAll_cons_ok {o₁ : Options} {d : Directive} {message : Option String}
    (hd : o.apply d = .ok (o₁, message)) (ds : List Directive) :
    o.applyAll (d :: ds) =
      ((o₁.applyAll ds).1.map (message.toList ++ ·), (o₁.applyAll ds).2) := by
  rw [applyAll, hd]

lemma applyAll_cons_error {d : Directive} {e : OptionError} (hd : o.apply d = .error e)
    (ds : List Directive) : o.applyAll (d :: ds) = (.error e, o) := by
  rw [applyAll, hd]

lemma Carries.applyAll (h : Carries o ds shown o') : o.applyAll ds = (.ok shown, o') := by
  induction h with
  | nil o => rfl
  | cons hd _ ih =>
    rw [applyAll_cons_ok hd, ih]
    rfl

/-- Behind directives that are accepted, one that is refused ends it. -/
lemma Carries.applyAll_refused (h : Carries o ds shown o') {d : Directive} {e : OptionError}
    (hd : o'.apply d = .error e) (rest : List Directive) :
    o.applyAll (ds ++ d :: rest) = (.error e, o') := by
  induction h with
  | nil o => exact applyAll_cons_error hd rest
  | cons hfirst _ ih =>
    rw [List.cons_append, applyAll_cons_ok hfirst, ih hd]
    rfl

/-- Either all directives are accepted, or there is a first one that is not. -/
lemma exists_carries (o : Options) (ds : List Directive) :
    (∃ shown o', Carries o ds shown o') ∨
      ∃ done d rest shown o' e, ds = done ++ d :: rest ∧ Carries o done shown o' ∧
        o'.apply d = .error e := by
  induction ds generalizing o with
  | nil => exact .inl ⟨[], o, .nil o⟩
  | cons d ds ih =>
    cases hd : o.apply d with
    | error e => exact .inr ⟨[], d, ds, [], o, e, rfl, .nil o, hd⟩
    | ok result =>
      obtain ⟨o₁, message⟩ := result
      rcases ih o₁ with ⟨shown, o', h⟩ | ⟨done, d', rest, shown, o', e, rfl, h, he⟩
      · exact .inl ⟨_, o', .cons hd h⟩
      · exact .inr ⟨d :: done, d', rest, _, o', e, rfl, .cons hd h, he⟩

lemma Carries.set {args : String} (h : Carries o (Directive.parseAll args) shown o') :
    o.set args = (.ok (report shown), o') := by
  rw [Options.set, h.applyAll]
  rfl

lemma Carries.set_refused {args : String} {done rest : List Directive} {d : Directive}
    {e : OptionError} (hargs : Directive.parseAll args = done ++ d :: rest)
    (h : Carries o done shown o') (he : o'.apply d = .error e) :
    o.set args = (.error e, o') := by
  rw [Options.set, hargs, h.applyAll_refused he]
  rfl

end Options

/-- **What setting options does to an editor.**  The options are those that the directives lead to
that stand before the first refused one, and all directives count if none is refused.  The refusal
is told, or else what the directives show.

The text, the caret and what can be redone stay.  What can be undone is cut to the new number if the
number of undos has changed, and the history keeps to that number from then on.  The tags are made
anew if comments are shown now and were not before, or the other way round, and otherwise the buffer
is as it was. -/
theorem Editor.set_exactly (ed : Editor) (args : String) :
    ((∃ shown, ed.options.Carries (Directive.parseAll args) shown (ed.set args).2.options ∧
        (ed.set args).1 = .ok (Options.report shown)) ∨
      ∃ done d rest shown e, Directive.parseAll args = done ++ d :: rest ∧
        ed.options.Carries done shown (ed.set args).2.options ∧
        (ed.set args).2.options.apply d = .error e ∧ (ed.set args).1 = .error e) ∧
    (ed.set args).2.text = ed.text ∧
    (ed.set args).2.caret = ed.caret ∧
    (ed.set args).2.history.redoStack = ed.history.redoStack ∧
    ((ed.set args).2.history.undoStack =
      if (ed.set args).2.options.undolevels = ed.options.undolevels then ed.history.undoStack
      else ed.history.undoStack.take (ed.set args).2.options.undolevels.toNat) ∧
    ((ed.set args).2.history.limit =
      if (ed.set args).2.options.undolevels = ed.options.undolevels then ed.history.limit
      else (ed.set args).2.options.undolevels.toNat) ∧
    if (ed.set args).2.options.comments = ed.options.comments then
      (ed.set args).2.buffer = ed.buffer
    else
      (ed.set args).2.buffer.tags =
        tagsOf (tokenize (ed.set args).2.options.comments .normal ed.text) := by
  obtain ⟨b, hb, htext, hsame, hnew⟩ := ed.set_spec args
  have hresult : (ed.set args).1 = (ed.options.set args).1 := rfl
  rw [hresult, hb]
  refine ⟨?_, htext, rfl, History.redoStack_relimit _ _ _, History.undoStack_relimit _ _ _,
    History.limit_relimit _ _ _, ?_⟩
  · rcases ed.options.exists_carries (Directive.parseAll args) with
      ⟨shown, o', h⟩ | ⟨done, d, rest, shown, o', e, hargs, h, he⟩
    · rw [h.set]
      exact .inl ⟨shown, h, rfl⟩
    · rw [h.set_refused hargs he]
      exact .inr ⟨done, d, rest, shown, e, hargs, h, he, rfl⟩
  · split
    · next hcomments => exact hsame hcomments
    · next hcomments => rw [Buffer.tags, hnew hcomments, map_tag_classify]

end MetaPostEditor
