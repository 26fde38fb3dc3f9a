import MetaPostEditor.CommandLine.Program
import MetaPostEditor.Proofs.Rendering
import MetaPostEditor.Proofs.SpanRuns
import MetaPostEditor.Proofs.TypedText

/-!
# Output without styling

With the option `--plain` the program starts from the palette that sets nothing apart, and entries
of the palette may still change it.  This file follows a text through the whole program.

* The option is in force exactly if `--plain` stands among the arguments before `--`
  (`CommandLine.format_eq_plain_iff`).
* The text is entered into an empty editor, pasted or typed, and has the tags of a scan then,
  whatever the options are (`CommandLine.Request.enter_of_nil`).
* A pen writes nothing but the text exactly if no character is to be set apart
  (`Terminal.render_spansOf_eq_iff`), and a terminal shows the text in any case
  (`Terminal.receiveAll_render`).

The main result, `CommandLine.plain_stdout`, is about every request for output without styling, and
thereby about the command lines that are read as one.  `CommandLine.plain_stdout_red_keyword` shows
that the option alone does not keep escape sequences out.
-/

namespace MetaPostEditor

namespace CommandLine

/-! ## The option in the command line -/

lemma Item.ofLong?_eq_plain_iff {name : String} :
    Item.ofLong? name = some (.switch .plain) ↔ name = "plain" := by
  unfold Item.ofLong?
  split <;> simp_all

lemma Item.ofLetter?_ne_plain (c : Char) : Item.ofLetter? c ≠ some (.switch .plain) := by
  unfold Item.ofLetter?
  split <;> simp

namespace Progress

variable {p p' : Progress}

/-- Whether the option `--plain` has been read, and whether the argument `--` has, behind which
there are no options. -/
def marks (p : Progress) : Bool × Bool :=
  (p.plain, p.filesOnly)

lemma marks_turnOn {s : Switch} (h : p.turnOn s = .ok p') :
    p'.marks = (p.plain || s == .plain, p.filesOnly) := by
  unfold turnOn at h
  dsimp only at h
  split_ifs at h
  rw [← Except.ok.inj h]
  cases s <;> simp [marks]

lemma marks_addFile {arg : String} (h : p.addFile arg = .ok p') : p'.marks = p.marks := by
  rw [addFile] at h
  split at h
  · cases h
  · split at h
    · cases h
    · rw [← Except.ok.inj h]
      rfl

lemma marks_addValue (p : Progress) (v : Valued) (value : String) :
    (p.addValue v value).marks = p.marks := by
  cases v <;> rfl

/-- No letter stands for the option. -/
lemma marks_letters {cs : List Char} (h : p.letters cs = .ok p') : p'.marks = p.marks := by
  induction cs generalizing p with
  | nil => rw [← Except.ok.inj h]
  | cons c cs ih =>
    rw [letters] at h
    cases hitem : Item.ofLetter? c with
    | none =>
      rw [hitem] at h
      cases h
    | some item =>
      rw [hitem] at h
      cases item with
      | version => cases h
      | help => cases h
      | valued v =>
        dsimp only at h
        split at h
        · rw [← Except.ok.inj h]
          rfl
        · rw [← Except.ok.inj h, marks_addValue]
        · rw [← Except.ok.inj h, marks_addValue]
      | switch s =>
        dsimp only at h
        cases hon : p.turnOn s with
        | error e =>
          rw [hon] at h
          cases h
        | ok p₁ =>
          have hs : (s == .plain) = false := by
            rw [beq_eq_false_iff_ne]
            rintro rfl
            exact Item.ofLetter?_ne_plain c hitem
          rw [hon] at h
          rw [ih h, marks_turnOn hon, hs, Bool.or_false, marks]

/-- A long name is the option if it is the whole text. -/
lemma marks_long {text : List Char} (h : p.long text = .ok p') :
    p'.marks = (p.plain || text == ['p', 'l', 'a', 'i', 'n'], p.filesOnly) := by
  unfold long at h
  dsimp only at h
  cases hitem : Item.ofLong? (String.ofList (text.takeWhile fun c => c != '=')) with
  | none =>
    rw [hitem] at h
    cases h
  | some item =>
    rw [hitem] at h
    cases hrest : text.dropWhile (fun c => c != '=') with
    | nil =>
      rw [hrest] at h
      have hname : text.takeWhile (fun c => c != '=') = text :=
        List.takeWhile_eq_self_iff.2 (List.dropWhile_eq_nil_iff.1 hrest)
      have htext : text = ['p', 'l', 'a', 'i', 'n'] ↔ item = .switch .plain := by
        rw [← Option.some_inj (a := item), ← hitem, hname, Item.ofLong?_eq_plain_iff]
        exact String.ofList_inj.symm
      cases item with
      | version => cases h
      | help => cases h
      | valued v =>
        have hne : (text == ['p', 'l', 'a', 'i', 'n']) = false := by
          rw [beq_eq_false_iff_ne, ne_eq, htext]
          exact Item.noConfusion
        rw [← Except.ok.inj h, hne, Bool.or_false]
        rfl
      | switch s =>
        have hsame : (text == ['p', 'l', 'a', 'i', 'n']) = (s == .plain) := by
          rw [Bool.eq_iff_iff, beq_iff_eq, beq_iff_eq, htext, Item.switch.injEq]
        rw [marks_turnOn h, hsame]
    | cons c value =>
      -- a value stands behind the name, and the option takes none
      have hne : (text == ['p', 'l', 'a', 'i', 'n']) = false := by
        rw [beq_eq_false_iff_ne]
        rintro rfl
        cases hrest
      rw [hrest] at h
      cases item with
      | valued v => rw [← Except.ok.inj h, marks_addValue, hne, Bool.or_false, marks]
      | version => cases h
      | help => cases h
      | switch s => cases h

/-- Before `--` the argument `--plain` is always the option, for a value cannot look so, and behind
it there are no options. -/
lemma marks_step {arg : String} (h : p.step arg = .ok p') :
    p'.marks =
      (p.plain || !p.filesOnly && arg == "--plain", p.filesOnly || arg == "--") := by
  have hplain : (arg == "--plain") = (arg.toList == ['-', '-', 'p', 'l', 'a', 'i', 'n']) := by
    rw [Bool.eq_iff_iff, beq_iff_eq, beq_iff_eq, ← String.toList_inj]
    rfl
  have hdashes : (arg == "--") = (arg.toList == ['-', '-']) := by
    rw [Bool.eq_iff_iff, beq_iff_eq, beq_iff_eq, ← String.toList_inj]
    rfl
  rw [step] at h
  rw [hplain, hdashes]
  cases hfiles : p.filesOnly with
  | true =>
    rw [hfiles] at h
    rw [marks_addFile h, marks, hfiles]
    simp
  | false =>
    have hsame (hmarks : p'.marks = p.marks) (hno : ∀ text, arg.toList ≠ '-' :: '-' :: text) :
        p'.marks = (p.plain || !false && arg.toList == ['-', '-', 'p', 'l', 'a', 'i', 'n'],
          false || arg.toList == ['-', '-']) := by
      rw [hmarks, marks, hfiles, beq_eq_false_iff_ne.2 (hno _), beq_eq_false_iff_ne.2 (hno _)]
      simp
    rw [hfiles] at h
    simp only [Bool.false_eq_true, if_false] at h
    split at h
    case h_1 => cases h
    case h_2 v _ hvalue =>
      rw [← Except.ok.inj h] at hsame ⊢
      exact hsame (marks_addValue p v arg) fun _ => hvalue _ _
    case h_3 _ harg =>
      rw [← Except.ok.inj h, harg]
      simp [marks]
    case h_4 text htext _ harg =>
      rw [marks_long h, hfiles, harg]
      simpa using htext
    case h_5 c rest _ hc _ harg =>
      refine hsame (marks_letters h) fun text htext => hc ?_
      rw [harg] at htext
      exact (List.cons.inj (List.cons.inj htext).2).1
    case h_6 hno _ => exact hsame (marks_addFile h) hno

lemma plain_foldlM {args : List String} (h : args.foldlM step p = .ok p') :
    p'.plain = true ↔
      p.plain = true ∨ p.filesOnly = false ∧ "--plain" ∈ args.takeWhile (· ≠ "--") := by
  induction args generalizing p with
  | nil =>
    rw [← Except.ok.inj h]
    simp
  | cons arg args ih =>
    rw [List.foldlM_cons] at h
    cases hstep : p.step arg with
    | error e =>
      rw [hstep] at h
      cases h
    | ok p₁ =>
      rw [hstep] at h
      have hmarks := marks_step hstep
      rw [marks, Prod.mk.injEq] at hmarks
      rw [ih h, hmarks.1, hmarks.2]
      by_cases harg : arg = "--"
      · rw [harg, List.takeWhile_cons_of_neg (by simp)]
        simp
      · rw [List.takeWhile_cons_of_pos (by simpa using harg), List.mem_cons,
          beq_eq_false_iff_ne.2 harg, Bool.or_false, Bool.or_eq_true, Bool.and_eq_true,
          Bool.not_eq_true', beq_iff_eq, or_assoc, ← and_or_left, eq_comm (a := arg)]

end Progress

/-- A command line asks for output without styling exactly if `--plain` stands among its options. -/
lemma format_eq_plain_iff {args : List String} {r : Request} (h : parse args = .ok (.process r)) :
    r.format = .plain ↔ "--plain" ∈ args.takeWhile (· ≠ "--") := by
  rw [parse] at h
  split at h
  · next p hp =>
    have hplain : p.plain = true ↔ "--plain" ∈ args.takeWhile (· ≠ "--") := by
      simpa [Progress.start] using Progress.plain_foldlM hp
    rw [← hplain]
    rw [Progress.finish] at h
    split at h
    · cases h
    · split at h
      · cases h
      · next hboth =>
        rw [← Invocation.process.inj (Except.ok.inj h)]
        cases hspans : p.spans with
        | true =>
          rw [hspans, Bool.true_and] at hboth
          simp [hboth]
        | false => simp
  all_goals cases h

end CommandLine

namespace Terminal

/-! ## What a pen adds -/

namespace Pen

lemma take_ne_nil {pen : Pen} {target : Look} (h : target ≠ pen.look) :
    (pen.take target).2 ≠ [] := by
  have hsequence (codes : List Nat) : Sgr.sequence codes ≠ [] := List.cons_ne_nil _ _
  rw [take]
  by_cases hsame : target.attributes = pen.look.attributes
  · have hcolor : pen.look.color ≠ target.color := by
      intro hcolor
      exact h (show target = ⟨pen.look.color, pen.look.attributes⟩ by rw [hcolor, ← hsame])
    simp only [if_pos hsame, if_neg hcolor, List.nil_append]
    exact hsequence _
  · simp only [if_neg hsame]
    split
    · next hempty =>
      have hne : ¬ target.attributes.isEmpty = true := by
        intro htarget
        rw [Attributes.eq_empty_of_isEmpty hempty] at hsame
        exact hsame (Attributes.eq_empty_of_isEmpty htarget)
      rw [Sgr.attributes, if_neg hne]
      exact List.append_ne_nil_of_left_ne_nil (hsequence _) _
    · exact List.append_ne_nil_of_left_ne_nil
        (List.append_ne_nil_of_left_ne_nil (hsequence _) _) _

/-- The texts are all written, so there is nothing else in an output of their length. -/
lemma length_le_writeAll (pen : Pen) (palette : Palette) (spans : List Span) :
    (spans.flatMap (·.text)).length ≤ (pen.writeAll palette spans).2.length := by
  induction spans generalizing pen with
  | nil => exact Nat.zero_le _
  | cons span spans ih =>
    have hwrite : span.text.length ≤ (pen.write palette span).2.length := by
      rw [write]
      split
      · next hnil => rw [List.isEmpty_iff.1 hnil]
      · rw [List.length_append]
        exact Nat.le_add_left _ _
    rw [List.flatMap_cons, List.length_append, writeAll, List.length_append]
    exact Nat.add_le_add hwrite (ih _)

/-- A pen in the look of the terminal writes the texts alone exactly if all of them are to have that
look. -/
lemma writeAll_eq_iff {pen : Pen} (hpen : pen.look = .plain) (palette : Palette)
    (spans : List Span) :
    (pen.writeAll palette spans).2 = spans.flatMap (·.text) ↔
      ∀ look ∈ spans.flatMap (fun span => span.text.map fun _ => palette.look span.tag),
        look = .plain := by
  induction spans with
  | nil =>
    rw [writeAll, finish, hpen]
    simp [Look.isPlain, Look.plain, Attributes.isEmpty, Attributes.empty]
  | cons span spans ih =>
    rw [List.flatMap_cons, List.flatMap_cons, List.forall_mem_append, writeAll]
    by_cases hlook : palette.look span.tag = .plain
    · rw [write_of_look_eq (hlook.trans hpen.symm), List.append_cancel_left_eq, ih]
      simp [hlook]
    · by_cases hnil : span.text = []
      · have hwrite : pen.write palette span = (pen, []) := by
          rw [write, hnil]
          rfl
        simp [hwrite, hnil, ih]
      · -- the output is longer than the texts by an escape sequence
        have hwrite : span.text.length < (pen.write palette span).2.length := by
          have htake := List.length_pos_of_ne_nil (take_ne_nil (hpen ▸ hlook))
          rw [write, if_neg (by simpa using hnil), List.length_append]
          omega
        refine iff_of_false ?_ ?_
        · intro h
          have hlen := congrArg List.length h
          have hrest := (pen.write palette span).1.length_le_writeAll palette spans
          rw [List.length_append, List.length_append] at hlen
          omega
        · intro h
          obtain ⟨c, text, htext⟩ := List.exists_cons_of_ne_nil hnil
          exact hlook (h.1 _ (by simp [htext]))

end Pen

variable {palette : Palette}

lemma render_spansOf_eq_iff (cells : List Cell) :
    render palette (Buffer.spansOf cells) = textOf cells ↔
      ∀ cell ∈ cells, palette.look cell.tag = .plain := by
  rw [← Buffer.flatMap_text_spansOf, render,
    Pen.writeAll_eq_iff (show Pen.fresh.look = .plain from rfl),
    Buffer.flatMap_spansOf fun tag _ => palette.look tag, List.forall_mem_map]

/-- A terminal shows the cells, each in the look of its tag, if no character begins an escape
sequence. -/
lemma receiveAll_render (hknown : palette.Known) {cells : List Cell} (h : '\x1b' ∉ textOf cells) :
    Screen.blank.receiveAll (render palette (Buffer.spansOf cells)) =
      ⟨cells.map fun cell => (cell.char, palette.look cell.tag), .plain, .text⟩ := by
  have hspans : ∀ span ∈ Buffer.spansOf cells, '\x1b' ∉ span.text := by
    intro span hspan hmem
    rw [← Buffer.flatMap_text_spansOf] at h
    exact h (List.mem_flatMap.2 ⟨span, hspan, hmem⟩)
  refine (Screen.receiveAll_writeAll Pen.fresh hspans hknown).trans ?_
  rw [Buffer.flatMap_spansOf fun tag c => (c, palette.look tag), List.nil_append]

/-! ## Palettes -/

lemma Attributes.Known.union {s t : Attributes} (hs : s.Known) (ht : t.Known) :
    (s.union t).Known := by
  have hs' : s.bits.toNat < 2 ^ 6 := hs
  have ht' : t.bits.toNat < 2 ^ 6 := ht
  rw [Known, Attributes.union, UInt8.lt_iff_toNat_lt, UInt8.toNat_or]
  exact Nat.or_lt_two_pow hs' ht'

lemma Attributes.known_of_named? {name : String} {s : Attributes} (h : named? name = some s) :
    s.Known := by
  unfold named? at h
  split at h
  all_goals cases h
  all_goals decide

lemma Attributes.known_of_unionNamed? {names : List (List Char)} {s : Attributes}
    (h : unionNamed? names = some s) : s.Known := by
  induction names generalizing s with
  | nil =>
    cases h
    decide
  | cons name names ih =>
    rw [unionNamed?] at h
    simp only [Option.bind_eq_bind, Option.bind_eq_some_iff, Option.pure_def,
      Option.some.injEq] at h
    obtain ⟨t, ht, u, hu, rfl⟩ := h
    exact (known_of_named? ht).union (ih hu)

/-- An entry can ask only for attributes that have names. -/
lemma Palette.Known.setEntry {p p' : Palette} {entry : String} (hp : p.Known)
    (h : p.setEntry entry = .ok p') : p'.Known := by
  rw [Palette.setEntry] at h
  repeat' split at h
  · next hattributes =>
    rw [← Except.ok.inj h]
    intro t
    rw [Palette.set]
    dsimp only
    split
    · exact Attributes.known_of_unionNamed? hattributes
    · exact hp t
  all_goals cases h

lemma Palette.Known.setEntries {p p' : Palette} {entries : List String} (hp : p.Known)
    (h : p.setEntries entries = .ok p') : p'.Known := by
  induction entries generalizing p with
  | nil =>
    cases h
    exact hp
  | cons entry entries ih =>
    rw [Palette.setEntries] at h
    split at h
    · next hentry => exact ih (hp.setEntry hentry) h
    · cases h

end Terminal

/-! ## Runs of the program -/

namespace CommandLine

open Terminal

lemma setOptions_of_nil {ed ed' : Editor} {sets : List String}
    (h : (setOptions ed sets).2 = .ok ed') (htext : ed.text = []) (hcaret : ed.caret = 0) :
    ed'.text = [] ∧ ed'.caret = 0 := by
  induction sets generalizing ed with
  | nil =>
    cases h
    exact ⟨htext, hcaret⟩
  | cons args sets ih =>
    obtain ⟨b, hset, hb, -⟩ := ed.set_spec args
    rw [setOptions] at h
    cases hresult : ed.set args with
    | mk shown ed₁ =>
      rw [hresult] at h hset
      cases shown with
      | error e => cases h
      | ok shown =>
        obtain rfl : ed₁ = _ := hset
        exact ih h (hb.trans htext) hcaret

namespace Request

variable {r : Request} {ed : Editor}

/-- Whether it is typed or pasted, the text comes out as it is, with the tags of a scan. -/
lemma enter_of_nil (htext : ed.text = []) (hcaret : ed.caret = 0) (text : List Char) :
    ∃ ed', r.enter ed text = .ok ed' ∧
      ed'.buffer.cells = classify ed.options.comments .normal text := by
  obtain ⟨ed', hpaste, htext', -, hoptions, hfresh⟩ := Editor.paste_of_nil htext hcaret text
  have hcells : ed'.buffer.cells = classify ed.options.comments .normal text := by
    rw [ed'.fresh_iff.1 hfresh, hoptions, ← Editor.text, htext']
  rw [enter]
  cases hr : r.typed with
  | false =>
    rw [if_neg (by simp), hpaste]
    exact ⟨ed', rfl, hcells⟩
  | true =>
    obtain ⟨keys, ed₁, hok, hpaste₁, hsame, htags, -⟩ := Editor.typeText_of_nil htext hcaret text
    rw [hpaste] at hpaste₁
    cases hpaste₁
    rw [if_pos rfl]
    cases htyped : ed.typeText text with
    | mk result ed₂ =>
      rw [htyped] at hok hsame htags
      dsimp only at hok
      rw [hok]
      exact ⟨ed₂, rfl, (cells_ext hsame htags).trans hcells⟩

/-- A text can be read, so what comes out depends on the directives, the palette and the text. -/
lemma process_toUTF8 (r : Request) (text : String) :
    (r.process (.ok text.toUTF8)).2 =
      (setOptions (Editor.empty Options.default) r.sets).2.bind fun ed =>
        r.finish ed text.toList := by
  have hdecode : decode r.source (.ok text.toUTF8) = .ok text.toList := by
    have htext : String.fromUTF8? text.toUTF8 = some text := by
      rw [String.fromUTF8?, String.toUTF8, dif_pos text.isValidUTF8]
      rfl
    rw [decode]
    simp only [htext]
  rw [process, hdecode]

lemma code_run_eq_zero_iff (r : Request) (input : Except ReadError ByteArray) :
    (r.run input).code = 0 ↔ ∃ out, (r.process input).2 = .ok out := by
  rw [run]
  split
  · next h => simp [h]
  · next h => simp [h]

lemma stdout_run {input : Except ReadError ByteArray} {out : List Char} {caret : String}
    (h : (r.process input).2 = .ok (out, caret)) : (r.run input).stdout = String.ofList out := by
  rw [run]
  split
  · next hprocess =>
    rw [hprocess] at h
    cases h
  · next hprocess =>
    rw [hprocess] at h
    cases h
    rfl

/-- If the directives and the entries of the palette are accepted, an editor is written that holds
the text with the tags of a scan. -/
lemma process_of_ok {palette : Palette}
    (hset : (setOptions (Editor.empty Options.default) r.sets).2 = .ok ed)
    (hlooks : r.looks = .ok palette) (text : String) :
    ∃ ed' caret, ed'.buffer.cells = classify ed.options.comments .normal text.toList ∧
      (r.process (.ok text.toUTF8)).2 = .ok (r.write palette ed', caret) := by
  obtain ⟨htext, hcaret⟩ := setOptions_of_nil hset rfl rfl
  obtain ⟨ed', henter, hcells⟩ := enter_of_nil (r := r) htext hcaret text.toList
  refine ⟨ed', caretReport ed', hcells, ?_⟩
  rw [process_toUTF8, hset, Except.bind, finish, hlooks, henter]
  rfl

/-- A run succeeds only if the directives and the entries of the palette are accepted. -/
lemma exists_ok_of_code {text : String} (h : (r.run (.ok text.toUTF8)).code = 0) :
    ∃ ed palette, (setOptions (Editor.empty Options.default) r.sets).2 = .ok ed ∧
      r.looks = .ok palette := by
  obtain ⟨out, hout⟩ := (r.code_run_eq_zero_iff _).1 h
  rw [process_toUTF8] at hout
  cases hset : (setOptions (Editor.empty Options.default) r.sets).2 with
  | error e =>
    rw [hset] at hout
    cases hout
  | ok ed =>
    rw [hset, Except.bind, finish] at hout
    cases hlooks : r.looks with
    | error e =>
      rw [hlooks] at hout
      cases hout
    | ok palette => exact ⟨ed, palette, rfl, rfl⟩

/-- The directives are accepted and leave the editor `ed`, and the entries of the palette are
accepted and turn the palette that sets nothing apart into `palette`. -/
structure Ready (r : Request) (ed : Editor) (palette : Palette) : Prop where
  options : (setOptions (Editor.empty Options.default) r.sets).2 = .ok ed
  palette : Palette.plain.setEntries r.palette = .ok palette

variable {palette : Palette}

lemma looks_eq_ok_iff (hplain : r.format = .plain) :
    r.looks = .ok palette ↔ Palette.plain.setEntries r.palette = .ok palette := by
  rw [looks, if_pos hplain]
  cases Palette.plain.setEntries r.palette <;> simp

lemma Ready.process (h : r.Ready ed palette) (hplain : r.format = .plain) (text : String) :
    ∃ caret, (r.process (.ok text.toUTF8)).2 =
      .ok (render palette (Buffer.spansOf (classify ed.options.comments .normal text.toList)),
        caret) := by
  obtain ⟨ed', caret, hcells, hout⟩ :=
    process_of_ok h.options ((looks_eq_ok_iff hplain).2 h.palette) text
  have hwrite : r.write palette ed' =
      render palette (Buffer.spansOf (classify ed.options.comments .normal text.toList)) := by
    rw [write, hplain, Buffer.allSpans, hcells]
  rw [hwrite] at hout
  exact ⟨caret, hout⟩

lemma Ready.code_stdout (h : r.Ready ed palette) (hplain : r.format = .plain) (text : String) :
    (r.run (.ok text.toUTF8)).code = 0 ∧
      (r.run (.ok text.toUTF8)).stdout = String.ofList (render palette
        (Buffer.spansOf (classify ed.options.comments .normal text.toList))) := by
  obtain ⟨caret, hout⟩ := h.process hplain text
  exact ⟨(r.code_run_eq_zero_iff _).2 ⟨_, hout⟩, stdout_run hout⟩

lemma exists_ready {text : String} (hplain : r.format = .plain)
    (h : (r.run (.ok text.toUTF8)).code = 0) : ∃ ed palette, r.Ready ed palette := by
  obtain ⟨ed, palette, hset, hlooks⟩ := exists_ok_of_code h
  exact ⟨ed, palette, hset, (looks_eq_ok_iff hplain).1 hlooks⟩

/-- The text alone is written exactly if none of its characters is set apart. -/
lemma Ready.stdout_eq_iff (h : r.Ready ed palette) (hplain : r.format = .plain) (text : String) :
    (r.run (.ok text.toUTF8)).stdout = text ↔
      ∀ cell ∈ classify ed.options.comments .normal text.toList,
        palette.look cell.tag = .plain := by
  rw [(h.code_stdout hplain text).2, ← String.toList_inj, String.toList_ofList,
    ← render_spansOf_eq_iff, textOf_classify]

/-- What comes out for a text without styling.  The program succeeds exactly if it accepts the
directives and the entries of the palette.  It then writes the text and nothing else exactly if the
entries leave every character of the text the look of the terminal, and in any case a terminal shows
the text.  Without entries the text alone is written. -/
structure WritesPlain (r : Request) (text : String) : Prop where
  code : (r.run (.ok text.toUTF8)).code = 0 ↔ ∃ ed palette, r.Ready ed palette
  stdout : ∀ ed palette, r.Ready ed palette →
    ((r.run (.ok text.toUTF8)).stdout = text ↔
      ∀ cell ∈ classify ed.options.comments .normal text.toList, palette.look cell.tag = .plain)
  shown : ∀ ed palette, r.Ready ed palette → '\x1b' ∉ text.toList →
    Screen.blank.receiveAll (r.run (.ok text.toUTF8)).stdout.toList =
      ⟨(classify ed.options.comments .normal text.toList).map fun cell =>
        (cell.char, palette.look cell.tag), .plain, .text⟩
  bare : r.palette = [] → (r.run (.ok text.toUTF8)).code = 0 →
    (r.run (.ok text.toUTF8)).stdout = text

lemma writesPlain (hplain : r.format = .plain) (text : String) : r.WritesPlain text where
  code := by
    refine ⟨exists_ready hplain, ?_⟩
    rintro ⟨ed, palette, hready⟩
    exact (hready.code_stdout hplain text).1
  stdout _ _ hready := hready.stdout_eq_iff hplain text
  shown ed palette hready hescape := by
    have hknown : palette.Known := Palette.known_plain.setEntries hready.palette
    rw [(hready.code_stdout hplain text).2, String.toList_ofList]
    exact receiveAll_render hknown (by rwa [textOf_classify])
  bare hnil hcode := by
    obtain ⟨ed, palette, hready⟩ := exists_ready hplain hcode
    have hpalette := hready.palette
    rw [hnil] at hpalette
    cases hpalette
    exact (hready.stdout_eq_iff hplain text).2 fun _ _ => rfl

end Request

/-- **Output without styling.**  Every request for output without styling is answered so, whichever
source the text comes from: the program succeeds exactly if it accepts the directives and the
entries of the palette, and it then writes the text alone exactly if the entries leave every
character of the text the look of the terminal (`Request.WritesPlain`).  An accepted command line is
such a request exactly if `--plain` stands among its options. -/
theorem plain_stdout (text : String) :
    (∀ r : Request, r.format = .plain → r.WritesPlain text) ∧
    (∀ args r, parse args = .ok (.process r) →
      (r.format = .plain ↔ "--plain" ∈ args.takeWhile (· ≠ "--"))) ∧
    ∀ args r, parse args = .ok (.process r) → "--plain" ∈ args.takeWhile (· ≠ "--") →
      r.WritesPlain text := by
  have hrequest (r : Request) (hplain : r.format = .plain) : r.WritesPlain text :=
    Request.writesPlain hplain text
  refine ⟨hrequest, fun args r => format_eq_plain_iff, fun args r hparse hplain => ?_⟩
  exact hrequest r ((format_eq_plain_iff hparse).2 hplain)

/-- Numbers are to be red, but the only number stands in a comment, and comments are shown. -/
theorem plain_stdout_number_in_comment :
    parse ["-scomments", "--plain", "-tp", "digits=red"] =
        .ok (.process ⟨none, ["comments"], true, .plain, ["digits=red"]⟩) ∧
      "--plain" ∈ ["-scomments", "--plain", "-tp", "digits=red"].takeWhile (· ≠ "--") ∧
      ((Request.mk none ["comments"] true .plain ["digits=red"]).run
        (.ok "a %1".toUTF8)).code = 0 ∧
      ((Request.mk none ["comments"] true .plain ["digits=red"]).run
        (.ok "a %1".toUTF8)).stdout = "a %1" := by
  have hparse : parse ["-scomments", "--plain", "-tp", "digits=red"] =
      .ok (.process ⟨none, ["comments"], true, .plain, ["digits=red"]⟩) := by decide
  have hplain : "--plain" ∈
      ["-scomments", "--plain", "-tp", "digits=red"].takeWhile (· ≠ "--") := by decide
  have hready : (Request.mk none ["comments"] true .plain ["digits=red"]).Ready
      (Editor.empty { Options.default with comments := true })
      (Palette.plain.set .digits ⟨.indexed 1, .empty⟩) := ⟨by decide, rfl⟩
  have hout := (plain_stdout "a %1").2.2 _ _ hparse hplain
  exact ⟨hparse, hplain, hout.code.2 ⟨_, _, hready⟩, (hout.stdout _ _ hready).2 (by decide)⟩

/-- With an entry of the palette a text is written in colour in spite of `--plain`. -/
theorem plain_stdout_red_keyword :
    parse ["--plain", "-p", "keyword=red"] =
        .ok (.process ⟨none, [], false, .plain, ["keyword=red"]⟩) ∧
      (Request.mk none [] false .plain ["keyword=red"]).run (.ok "if".toUTF8) =
        ⟨0, "\x1b[31mif\x1b[0m", "1:3\n"⟩ := by
  exact ⟨by decide, by decide +kernel⟩

end CommandLine
end MetaPostEditor
