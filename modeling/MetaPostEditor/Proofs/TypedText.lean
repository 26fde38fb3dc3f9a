import MetaPostEditor.Proofs.EditedText
import MetaPostEditor.Proofs.EndEdits
import MetaPostEditor.Proofs.Snapshots

/-!
# Typing reproduces a text

Someone who types a text line by line has to work against the editor: Enter indents the new line,
and one Backspace may take away several characters, or put another indentation in the place of the
one that is there.  A loop at the start of each line presses Backspace until what is left of the
indentation can be completed.

* `Keyboard.settles_matchIndent`: the loop ends, since each Backspace leaves less before the caret.
* `Keyboard.Settles.brings`: when it has ended, the indentation is the one that was wanted.  Each
  round keeps what the line will end up with (`Indentation.indented`).
* `Keyboard.brings_text`: a whole text, line by line.

The main result, `Editor.typeText_reproduces`, says for which carets the text comes out as it is.
Only the first line can go wrong: the indentation before the caret is taken for the beginning of the
indentation that is to be typed.
-/

namespace MetaPostEditor

/-! ## Bringing an indentation to a target -/

namespace Indentation

variable {a a₀ w target : List Char}

/-- What stands before the caret when the indentation of its line has been brought to `target`, and
`a` stood there at first.  A line whose indentation can be completed keeps what it holds, and any
other is emptied. -/
def indented (a target : List Char) : List Char :=
  match (before a a.length).isPrefixOf? target with
  | some missing => a ++ missing
  | none => a.take (lineStart a a.length) ++ target

lemma indented_of_some {missing : List Char}
    (h : (before a a.length).isPrefixOf? target = some missing) :
    indented a target = a ++ missing := by
  rw [indented, h]

lemma indented_of_none (h : (before a a.length).isPrefixOf? target = none) :
    indented a target = a.take (lineStart a a.length) ++ target := by
  rw [indented, h]

/-- A line with nothing but white space ends up with the target and nothing else. -/
lemma indented_of_blank (hline : a₀ = [] ∨ a₀.getLast? = some '\n') (hw : '\n' ∉ w)
    (hblank : ∀ c ∈ w, Unicode.isWhiteSpace c = true) (target : List Char) :
    indented (a₀ ++ w) target = a₀ ++ target := by
  have hbefore : before (a₀ ++ w) (a₀ ++ w).length = w := by
    rw [before_of_newline hline hw, ofLine_of_blank hblank]
  cases hstarts : (before (a₀ ++ w) (a₀ ++ w).length).isPrefixOf? target with
  | some missing =>
    rw [indented_of_some hstarts, List.append_assoc]
    rw [hbefore, List.isPrefixOf?_eq_some_iff_append_eq] at hstarts
    rw [hstarts]
  | none => rw [indented_of_none hstarts, lineStart_of_newline hline hw, List.take_left]

/-- The target is added to what is there exactly if there is no indentation yet. -/
lemma indented_eq_append_iff : indented a target = a ++ target ↔ before a a.length = [] := by
  cases hstarts : (before a a.length).isPrefixOf? target with
  | some missing =>
    rw [indented_of_some hstarts, List.append_right_inj]
    rw [List.isPrefixOf?_eq_some_iff_append_eq] at hstarts
    constructor
    · intro h
      simpa [h] using hstarts
    · intro h
      simpa [h] using hstarts
  | none =>
    have hne : before a a.length ≠ [] := by
      intro h
      rw [h] at hstarts
      simp [List.isPrefixOf?] at hstarts
    refine iff_of_false ?_ hne
    intro h
    obtain ⟨a₀, l, rfl, hline, hl⟩ := exists_lastLine a
    rw [indented_of_none hstarts, lineStart_of_newline hline hl, List.take_left,
      List.append_assoc, List.append_right_inj, List.self_eq_append_left] at h
    exact hne (by rw [before_of_newline hline hl, h]; rfl)

/-- One Backspace brings the indentation nearer to the target: there is less before the caret, and
the line will still end up the same. -/
lemma indented_backspace {c : Char}
    (h : (before (a ++ [c]) (a ++ [c]).length).isPrefixOf? target = none) (o : Options) :
    ((Edit.delete a.length 1).outcome o a [c]).length < (a ++ [c]).length ∧
      indented ((Edit.delete a.length 1).outcome o a [c]) target = indented (a ++ [c]) target := by
  obtain ⟨a₀, w, hsplit, hline, hnewline⟩ := exists_lastLine (a ++ [c])
  -- the character is on the line, since the line has an indentation
  rcases List.eq_nil_or_concat w with rfl | ⟨l, d, rfl⟩
  · rw [hsplit, before_of_newline hline hnewline] at h
    simp [ofLine, List.isPrefixOf?] at h
  rw [List.concat_eq_append] at hsplit hnewline
  rw [← List.append_assoc] at hsplit
  obtain ⟨rfl, hcd⟩ := List.append_inj' hsplit rfl
  obtain rfl : c = d := List.singleton_inj.1 hcd
  have hnewline' : '\n' ∉ l := fun hmem => hnewline (List.mem_append_left _ hmem)
  have hstart := lineStart_of_newline hline hnewline
  rw [← List.append_assoc] at hstart
  have hgoal : indented (a₀ ++ l ++ [c]) target = a₀ ++ target := by
    rw [indented_of_none h, hstart, List.append_assoc, List.take_left]
  rw [hgoal, Edit.outcome_of_isDeletion rfl]
  by_cases hback : goesBack o.outdent (a₀ ++ l) [c] = true
  · obtain ⟨-, -, hne, hblank⟩ := (goesBack_iff hline hnewline' _ _).1 hback
    have hbefore : before (a₀ ++ l) (a₀ ++ l).length = l := by
      rw [before_of_newline hline hnewline', ofLine_of_blank (List.all_eq_true.1 hblank)]
    have hlt := length_shallowerBefore_lt (a := a₀ ++ l) (by rwa [hbefore])
    rw [hbefore] at hlt
    rw [if_pos hback, lineStart_of_newline hline hnewline', List.take_left]
    refine ⟨?_, indented_of_blank hline (newline_notMem_shallowerBefore _ _)
      (fun c hc => isWhiteSpace_of_mem_shallowerBefore hc) target⟩
    generalize shallowerBefore (a₀ ++ l) (a₀ ++ l).length = s at hlt
    simp only [List.length_append, List.length_singleton]
    omega
  · rw [if_neg hback]
    refine ⟨by simp, ?_⟩
    by_cases hblank : ∀ c ∈ l, Unicode.isWhiteSpace c = true
    · exact indented_of_blank hline hnewline' hblank target
    · -- the indentation ends before the character, and is what it was
      have hsame : ofLine (l ++ [c]) = ofLine l := by
        have hlen : (l.takeWhile Unicode.isWhiteSpace).length ≠ l.length := by
          intro hlen
          exact hblank (List.takeWhile_eq_self_iff.1
            ((List.takeWhile_prefix _).eq_of_length hlen))
        rw [ofLine, List.takeWhile_append, if_neg hlen, ofLine]
      rw [List.append_assoc, before_of_newline hline hnewline, hsame,
        ← before_of_newline hline hnewline'] at h
      rw [indented_of_none h, lineStart_of_newline hline hnewline', List.take_left]

end Indentation

/-- At the end of the text an edit leaves the tags those of a scan of the whole text. -/
lemma Editor.fresh_of_apply {ed ed' : Editor} (hfresh : ed.Fresh) {a removed : List Char}
    (htext : ed.text = a ++ removed) {e : Edit} (hpos : e.position = a.length)
    (hdel : e.deleted = removed.length) {caret : Nat} (happly : ed.apply e = .ok (caret, ed')) :
    ed'.Fresh := by
  have hend : e.position + e.deleted = ed.buffer.length := by
    rw [← Buffer.length_text, ← Editor.text, htext, hpos, hdel, List.length_append]
  have hafter : ed.after e = ed' := by rw [Editor.after, happly]
  have hcells := Editor.fresh_after (ed.fresh_iff.1 hfresh) hend
  have hoptions := (ed.edited_after e).options
  rw [hafter] at hcells hoptions
  rw [← hoptions] at hcells
  exact ed'.fresh_iff.2 hcells

/-! ## Typists -/

/-- The caret stands between two texts. -/
structure Typist.Between (t : Typist) (a b : List Char) : Prop where
  text : t.editor.text = a ++ b
  caret : t.editor.caret = a.length

lemma Typist.between_of_le {t : Typist} (h : t.editor.caret ≤ t.editor.buffer.length) :
    t.Between (t.editor.text.take t.editor.caret) (t.editor.text.drop t.editor.caret) := by
  refine ⟨(List.take_append_drop _ _).symm, (List.length_take_of_le ?_).symm⟩
  rwa [Editor.text, Buffer.length_text]

lemma Typist.Between.before {t : Typist} {a b : List Char} (h : t.Between a b) :
    Indentation.before t.editor.text t.editor.caret = Indentation.before a a.length := by
  rw [h.text, h.caret, Indentation.before_append]

/-- An indentation that does not fit is not empty, so there is something to remove. -/
lemma Typist.Between.exists_of_none {t : Typist} {a b target : List Char} (h : t.Between a b)
    (hstarts : (Indentation.before t.editor.text t.editor.caret).isPrefixOf? target = none) :
    ∃ a' c, a = a' ++ [c] := by
  rcases List.eq_nil_or_concat a with rfl | ⟨a', c, rfl⟩
  · rw [h.before] at hstarts
    cases hstarts
  · exact ⟨a', c, List.concat_eq_append⟩

/-- By pressing keys, Enter `n` times among them, the text before the caret has become `a`, and that
behind it is `b` as it was. -/
structure Typist.Writes (t : Typist) (n : Nat) (a b : List Char) (t' : Typist) : Prop
    extends t'.Between a b where
  options : t'.editor.options = t.editor.options
  enters : t'.keys.enters = t.keys.enters + n
  /-- At the end of the text, tags that are those of a scan of the whole text stay so. -/
  fresh : b = [] → t.editor.Fresh → t'.editor.Fresh

lemma Typist.Writes.trans {t₁ t₂ t₃ : Typist} {n m : Nat} {a₁ a₂ b : List Char}
    (h₁ : t₁.Writes n a₁ b t₂) (h₂ : t₂.Writes m a₂ b t₃) : t₁.Writes (n + m) a₂ b t₃ := by
  refine ⟨h₂.toBetween, h₂.options.trans h₁.options, ?_, ?_⟩
  · rw [h₂.enters, h₁.enters, Nat.add_assoc]
  · intro hb hfresh
    exact h₂.fresh hb (h₁.fresh hb hfresh)

namespace Keyboard

variable {t t' : Typist} {n m : Nat} {a a' b : List Char}

/-- The action does not fail, and writes what it should. -/
def Brings (x : Keyboard Unit) (t : Typist) (n : Nat) (a b : List Char) : Prop :=
  ∃ t', x t = .ok () t' ∧ t.Writes n a b t'

lemma bind_of_ok {α : Type} {x : Keyboard Unit} (h : x t = .ok () t') (f : Unit → Keyboard α) :
    (x >>= f) t = f () t' := by
  change EStateM.bind x f t = _
  rw [EStateM.bind, h]

lemma get_bind {α : Type} (f : Typist → Keyboard α) : (get >>= f) t = f t t := rfl

lemma Brings.bind {x y : Keyboard Unit} (hx : Brings x t n a b)
    (hy : ∀ t', t'.Between a b → Brings y t' m a' b) :
    Brings (x >>= fun _ => y) t (n + m) a' b := by
  obtain ⟨t₁, ht₁, h₁⟩ := hx
  obtain ⟨t₂, ht₂, h₂⟩ := hy t₁ h₁.toBetween
  exact ⟨t₂, by rw [bind_of_ok ht₁ _, ht₂], h₁.trans h₂⟩

lemma brings_pure (h : t.Between a b) : Brings (pure ()) t 0 a b :=
  ⟨t, rfl, h, rfl, rfl, fun _ hfresh => hfresh⟩

/-- A key that makes an edit, and is counted. -/
lemma brings_press {removed : List Char} (htext : t.editor.text = a ++ removed ++ b) {e : Edit}
    (hpos : e.position = a.length) (hdel : e.deleted = removed.length)
    {f : KeyCount → KeyCount} (hf : ∀ k, (f k).enters = k.enters + n) :
    Brings (press e >>= fun _ => count f) t n (e.outcome t.editor.options a removed) b := by
  obtain ⟨ed, happly, htext', hcaret, hoptions⟩ := t.editor.apply_of_text htext hpos hdel
  have hpress : press e t = .ok () { t with editor := ed } := by rw [press, happly]
  refine ⟨⟨ed, f t.keys⟩, bind_of_ok hpress _, ⟨htext', hcaret⟩, hoptions, hf t.keys, ?_⟩
  intro hb hfresh
  rw [hb, List.append_nil] at htext
  exact Editor.fresh_of_apply hfresh htext hpos hdel happly

lemma brings_char (h : t.Between a b) {c : Char} (hc : c ≠ '\n') :
    Brings (char c) t 0 (a ++ [c]) b := by
  have hpress := brings_press (n := 0) (e := .insert t.editor.caret [c])
    (show t.editor.text = a ++ [] ++ b by rw [List.append_nil, h.text]) h.caret rfl
    (f := fun k => { k with chars := k.chars + 1 }) fun _ => rfl
  rwa [Edit.outcome_of_other (by simp [Edit.insert]) (by simp [Edit.insert, hc])] at hpress

lemma brings_chars (h : t.Between a b) {cs : List Char} (hcs : '\n' ∉ cs) :
    Brings (chars cs) t 0 (a ++ cs) b := by
  induction cs generalizing t a with
  | nil =>
    rw [List.append_nil]
    exact brings_pure h
  | cons c cs ih =>
    rw [List.mem_cons, not_or] at hcs
    rw [List.append_cons]
    exact (brings_char h (Ne.symm hcs.1)).bind fun t' h' => ih h' hcs.2

/-- Enter breaks the line, and white space may follow. -/
lemma brings_enter (h : t.Between a b) :
    ∃ w, '\n' ∉ w ∧ (∀ c ∈ w, Unicode.isWhiteSpace c = true) ∧
      Brings enter t 1 (a ++ ['\n'] ++ w) b := by
  have hpress := brings_press (n := 1) (e := .insert t.editor.caret ['\n'])
    (show t.editor.text = a ++ [] ++ b by rw [List.append_nil, h.text]) h.caret rfl
    (f := fun k => { k with enters := k.enters + 1 }) fun _ => rfl
  by_cases hauto : t.editor.options.autoindent = true
  · rw [Edit.outcome_of_newline rfl hauto] at hpress
    refine ⟨Indentation.before a a.length, ?_, ?_, by rw [← List.append_cons]; exact hpress⟩
    · exact Indentation.newline_notMem_before a a.length
    · intro c hc
      exact Indentation.isWhiteSpace_of_mem_before hc
  · rw [Edit.outcome_of_other (by simp [Edit.insert]) (by simp [hauto])] at hpress
    exact ⟨[], by simp, by simp, by rw [List.append_nil]; exact hpress⟩

lemma backspace_of_pos (h : t.editor.caret ≠ 0) :
    backspace t = (press (.delete (t.editor.caret - 1) 1) >>= fun _ =>
      count fun k => { k with backspaces := k.backspaces + 1 }) t := by
  simp only [backspace, get_bind, if_neg h]

lemma brings_backspace {c : Char} (h : t.Between (a ++ [c]) b) :
    Brings backspace t 0 ((Edit.delete a.length 1).outcome t.editor.options a [c]) b := by
  have hcaret : t.editor.caret = a.length + 1 := by
    rw [h.caret, List.length_append, List.length_singleton]
  have hpress := brings_press (n := 0) (e := .delete (t.editor.caret - 1) 1) h.text
    (by rw [Edit.delete, hcaret, Nat.add_sub_cancel]) rfl
    (f := fun k => { k with backspaces := k.backspaces + 1 }) fun _ => rfl
  rw [hcaret, Nat.add_sub_cancel] at hpress
  obtain ⟨t', ht', hwrites⟩ := hpress
  refine ⟨t', ?_, hwrites⟩
  rw [← ht', backspace_of_pos (by omega), hcaret, Nat.add_sub_cancel]

/-! ## The loop at the start of a line -/

/-- The outcome of pressing Backspace until the indentation can be completed to `target`, and
completing it then.  There is no bound on the number of rounds here, so a loop that went on for ever
would have no outcome. -/
inductive Settles (target : List Char) : Typist → EStateM.Result TypingError Typist Unit → Prop
  | fits {t : Typist} {missing : List Char}
      (h : (Indentation.before t.editor.text t.editor.caret).isPrefixOf? target = some missing) :
      Settles target t (chars missing t)
  | again {t t' : Typist} {r : EStateM.Result TypingError Typist Unit}
      (h : (Indentation.before t.editor.text t.editor.caret).isPrefixOf? target = none)
      (hback : backspace t = .ok () t') (hrest : Settles target t' r) : Settles target t r
  | fails {t t' : Typist} {e : TypingError}
      (h : (Indentation.before t.editor.text t.editor.caret).isPrefixOf? target = none)
      (hback : backspace t = .error e t') : Settles target t (.error e t')

variable {target : List Char}

lemma matchIndent_of_some {missing : List Char}
    (h : (Indentation.before t.editor.text t.editor.caret).isPrefixOf? target = some missing)
    (fuel : Nat) : matchIndent target fuel t = chars missing t := by
  cases fuel <;> simp only [matchIndent, get_bind, h]

lemma matchIndent_of_none
    (h : (Indentation.before t.editor.text t.editor.caret).isPrefixOf? target = none)
    (fuel : Nat) :
    matchIndent target (fuel + 1) t = (backspace >>= fun _ => matchIndent target fuel) t := by
  simp only [matchIndent, get_bind, h]

/-- The loop comes to an end within as many rounds as there are characters before the caret. -/
lemma settles_matchIndent (h : t.Between a b) {fuel : Nat} (hfuel : a.length ≤ fuel) :
    Settles target t (matchIndent target fuel t) := by
  induction fuel generalizing t a with
  | zero =>
    obtain rfl : a = [] := List.length_eq_zero_iff.1 (Nat.le_zero.1 hfuel)
    have hfits : (Indentation.before t.editor.text t.editor.caret).isPrefixOf? target =
        some target := by
      rw [h.before]
      rfl
    rw [matchIndent_of_some hfits]
    exact .fits hfits
  | succ fuel ih =>
    cases hstarts : (Indentation.before t.editor.text t.editor.caret).isPrefixOf? target with
    | some missing =>
      rw [matchIndent_of_some hstarts]
      exact .fits hstarts
    | none =>
      obtain ⟨a, c, rfl⟩ := h.exists_of_none hstarts
      obtain ⟨t', ht', hwrites⟩ := brings_backspace h
      have hlt := (Indentation.indented_backspace (h.before ▸ hstarts) t.editor.options).1
      rw [matchIndent_of_none hstarts, bind_of_ok ht' _]
      exact .again hstarts ht' (ih hwrites.toBetween (by omega))

/-- Whatever the loop comes to, it has brought the indentation to the target. -/
lemma Settles.brings {r : EStateM.Result TypingError Typist Unit} (hs : Settles target t r)
    (h : t.Between a b) (htarget : '\n' ∉ target) :
    ∃ t', r = .ok () t' ∧ t.Writes 0 (Indentation.indented a target) b t' := by
  induction hs generalizing a with
  | @fits t missing hfits =>
    have hmissing : '\n' ∉ missing := by
      rw [List.isPrefixOf?_eq_some_iff_append_eq] at hfits
      intro hmem
      exact htarget (hfits ▸ List.mem_append_right _ hmem)
    rw [h.before] at hfits
    rw [Indentation.indented_of_some hfits]
    exact brings_chars h hmissing
  | again hstarts hback _ ih =>
    obtain ⟨a, c, rfl⟩ := h.exists_of_none hstarts
    obtain ⟨t₁, ht₁, hwrites₁⟩ := brings_backspace h
    rw [hback] at ht₁
    cases ht₁
    obtain ⟨t₂, rfl, hwrites₂⟩ := ih hwrites₁.toBetween
    rw [(Indentation.indented_backspace (h.before ▸ hstarts) _).2] at hwrites₂
    exact ⟨t₂, rfl, hwrites₁.trans hwrites₂⟩
  | fails hstarts hback =>
    obtain ⟨a, c, rfl⟩ := h.exists_of_none hstarts
    obtain ⟨t', ht', -⟩ := brings_backspace h
    rw [hback] at ht'
    cases ht'

/-! ## Lines and texts -/

lemma brings_line (h : t.Between a b) {l : List Char} (hl : '\n' ∉ l) :
    Brings (line l) t 0
      (Indentation.indented a (Indentation.ofLine l) ++ l.dropWhile Unicode.isWhiteSpace) b := by
  have htarget : '\n' ∉ Indentation.ofLine l := fun hc => hl (List.takeWhile_subset _ hc)
  have hrest : '\n' ∉ l.dropWhile Unicode.isWhiteSpace := fun hc =>
    hl ((List.dropWhile_suffix _).subset hc)
  have hsettles : Settles (Indentation.ofLine l) t
      (matchIndent (Indentation.ofLine l) t.editor.caret t) :=
    settles_matchIndent h h.caret.ge
  have hmatch : Brings (matchIndent (Indentation.ofLine l) t.editor.caret) t 0
      (Indentation.indented a (Indentation.ofLine l)) b :=
    hsettles.brings h htarget
  exact hmatch.bind fun t' h' => brings_chars h' hrest

/-- Behind Enter a line ends up as it is, whatever the editor has put there. -/
lemma brings_newLines (h : t.Between a b) {ls : List (List Char)} (hls : ∀ l ∈ ls, '\n' ∉ l) :
    Brings (newLines ls) t ls.length (a ++ ls.flatMap ('\n' :: ·)) b := by
  induction ls generalizing t a with
  | nil =>
    rw [List.flatMap_nil, List.append_nil]
    exact brings_pure h
  | cons l ls ih =>
    obtain ⟨w, hw, hblank, henter⟩ := brings_enter h
    have hbreak : a ++ ['\n'] = [] ∨ (a ++ ['\n']).getLast? = some '\n' := by simp
    have hline : Indentation.indented (a ++ ['\n'] ++ w) (Indentation.ofLine l) ++
        l.dropWhile Unicode.isWhiteSpace = a ++ '\n' :: l := by
      rw [Indentation.indented_of_blank hbreak hw hblank, List.append_assoc, Indentation.ofLine,
        List.takeWhile_append_dropWhile, ← List.append_cons]
    have hrest := henter.bind fun t₁ h₁ =>
      (brings_line h₁ (hls l (by simp))).bind fun t₂ h₂ =>
        ih h₂ fun l' hl' => hls l' (by simp [hl'])
    rw [hline, Nat.zero_add, Nat.add_comm, List.append_assoc] at hrest
    exact hrest

/-- **Typing.**  The first line is typed behind what stands on the line of the caret, with its
indentation brought to that of the text; all else comes out as it is. -/
lemma brings_text (h : t.Between a b) {first : List Char} {rest : List (List Char)}
    {text : List Char} (hlines : Text.lines text = first :: rest) :
    Brings (Keyboard.text text) t rest.length
      (Indentation.indented a (Indentation.ofLine first) ++
        first.dropWhile Unicode.isWhiteSpace ++ rest.flatMap ('\n' :: ·)) b := by
  have hline : ∀ l ∈ first :: rest, '\n' ∉ l := by
    intro l hl
    exact Text.newline_notMem_of_mem_lines (hlines ▸ hl)
  have hrest : ∀ l ∈ rest, '\n' ∉ l := fun l hl => hline l (by simp [hl])
  have hall := (brings_line h (hline first (by simp))).bind fun t' h' => brings_newLines h' hrest
  rw [Nat.zero_add] at hall
  rw [Keyboard.text, hlines]
  exact hall

/-- What has been typed is compared with the text that was wanted. -/
lemma textExactly_eq (hbetween : t.Between a b) {text : List Char}
    (h : Keyboard.text text t = .ok () t') :
    textExactly text t =
      if t'.editor.text ≠ a ++ text ++ b then .error .diverged t' else .ok t'.keys t' := by
  have hbefore : t.editor.text.take t.editor.caret = a := by
    rw [hbetween.text, hbetween.caret, List.take_left]
  have hbehind : t.editor.text.drop t.editor.caret = b := by
    rw [hbetween.text, hbetween.caret, List.drop_left]
  simp only [textExactly, get_bind, bind_of_ok h, hbefore, hbehind]
  split <;> rfl

end Keyboard

namespace Editor

variable {ed : Editor} {a b : List Char}

/-- A text that is typed where the line has no indentation comes out as it is. -/
lemma typeText_of_plain (h : (Typist.mk ed ⟨0, 0, 0⟩).Between a b)
    (hplain : Indentation.before a a.length = []) (text : List Char) :
    ∃ t', ed.typeText text = (.ok t'.keys, t'.editor) ∧
      (Typist.mk ed ⟨0, 0, 0⟩).Writes (text.count '\n') (a ++ text) b t' := by
  obtain ⟨first, rest, hlines, htext, hcount⟩ := Text.exists_lines text
  obtain ⟨t', ht', hwrites⟩ := Keyboard.brings_text h hlines
  rw [Indentation.indented_eq_append_iff.2 hplain, List.append_assoc a, Indentation.ofLine,
    List.takeWhile_append_dropWhile, List.append_assoc, ← htext, hcount] at hwrites
  refine ⟨t', ?_, hwrites⟩
  have hexact := Keyboard.textExactly_eq h ht'
  rw [if_neg (not_not_intro hwrites.text)] at hexact
  rw [typeText, hexact]

/-- Where the line has an indentation, something else comes out. -/
lemma typeText_of_indented (h : (Typist.mk ed ⟨0, 0, 0⟩).Between a b)
    (hindented : Indentation.before a a.length ≠ []) (text : List Char) :
    (ed.typeText text).1 = .error .diverged := by
  obtain ⟨first, rest, hlines, htext, -⟩ := Text.exists_lines text
  obtain ⟨t', ht', hwrites⟩ := Keyboard.brings_text h hlines
  have hother : t'.editor.text ≠ a ++ text ++ b := by
    intro hsame
    have hfirst : first = Indentation.ofLine first ++ first.dropWhile Unicode.isWhiteSpace :=
      List.takeWhile_append_dropWhile.symm
    -- all but the indentation of the first line is in the right place
    rw [hwrites.text, htext, List.append_left_inj, ← List.append_assoc a, List.append_left_inj]
      at hsame
    conv at hsame => rhs; rw [hfirst]
    rw [← List.append_assoc, List.append_left_inj] at hsame
    exact hindented (Indentation.indented_eq_append_iff.1 hsame)
  have hexact := Keyboard.textExactly_eq h ht'
  rw [if_pos hother] at hexact
  rw [typeText, hexact]

lemma fresh_of_nil (htext : ed.text = []) : ed.Fresh := by
  have hnil : ed.buffer.cells = [] := List.map_eq_nil_iff.1 htext
  rw [ed.fresh_iff, ← Editor.text, htext, hnil, classify_nil]

/-- A text that is pasted into an empty editor comes out as it is. -/
lemma paste_of_nil (htext : ed.text = []) (hcaret : ed.caret = 0) (text : List Char) :
    ∃ ed', ed.paste text = .ok ed' ∧ ed'.text = text ∧ ed'.caret = text.length ∧
      ed'.options = ed.options ∧ ed'.Fresh := by
  have hempty : ed.text = [] ++ [] ++ [] := htext
  obtain ⟨ed', happly, htext', hcaret', hoptions⟩ :=
    ed.apply_of_text hempty (e := .insert ed.caret text) hcaret rfl
  have hout : (Edit.insert ed.caret text).outcome ed.options [] [] = text := by
    by_cases hnew : text = ['\n'] ∧ ed.options.autoindent = true
    · rw [Edit.outcome_of_newline hnew.1 hnew.2, hnew.1]
      rfl
    · exact Edit.outcome_of_other (by simp [Edit.insert]) hnew [] []
  rw [hout, List.append_nil] at htext'
  rw [hout] at hcaret'
  refine ⟨ed', by rw [paste, happly]; rfl, htext', hcaret', hoptions, ?_⟩
  exact fresh_of_apply (fresh_of_nil htext) (show ed.text = [] ++ [] from htext) hcaret rfl happly

/-- Typing a text into an empty editor does what pasting it does. -/
lemma typeText_of_nil (hnil : ed.text = []) (hcaret : ed.caret = 0) (text : List Char) :
    ∃ keys ed', (ed.typeText text).1 = .ok keys ∧ ed.paste text = .ok ed' ∧
      (ed.typeText text).2.text = ed'.text ∧ (ed.typeText text).2.buffer.tags = ed'.buffer.tags ∧
      (ed.typeText text).2.caret = ed'.caret := by
  obtain ⟨t', ht', hwrites⟩ :=
    typeText_of_plain (show (Typist.mk ed ⟨0, 0, 0⟩).Between [] [] from ⟨hnil, hcaret⟩) rfl text
  obtain ⟨ed', hpaste, htext', hcaret', hoptions', hfresh'⟩ := paste_of_nil hnil hcaret text
  have hfresh : t'.editor.Fresh := hwrites.fresh rfl (fresh_of_nil hnil)
  have htext : t'.editor.text = text := hwrites.text.trans (List.append_nil _)
  rw [ht']
  refine ⟨t'.keys, ed', rfl, hpaste, htext.trans htext'.symm, ?_, hwrites.caret.trans hcaret'.symm⟩
  -- both have the tags of a scan of the same text
  rw [Fresh, htext, hwrites.options] at hfresh
  rw [Fresh, htext', hoptions'] at hfresh'
  exact hfresh.trans hfresh'.symm

/-- **Typing a text.**  The loop at the start of a line always ends, also if nothing bounds the
number of its rounds.  Typing succeeds exactly if the line of the caret has no indentation before
the caret, and fails otherwise because something else came out.  If it succeeds, the text stands at
the place of the caret, with the caret behind it, and Enter was pressed once for each newline in it.
In an editor without text it always succeeds, and does what pasting does. -/
theorem typeText_reproduces (hreach : ed.Reachable) (text : List Char) :
    (∀ (target : List Char) (t : Typist), t.editor.caret ≤ t.editor.buffer.length →
      Keyboard.Settles target t (Keyboard.matchIndent target t.editor.caret t)) ∧
    ((∃ keys, (ed.typeText text).1 = .ok keys) ↔ Indentation.before ed.text ed.caret = []) ∧
    (Indentation.before ed.text ed.caret ≠ [] → (ed.typeText text).1 = .error .diverged) ∧
    (∀ keys, (ed.typeText text).1 = .ok keys →
      (ed.typeText text).2.text = ed.text.take ed.caret ++ text ++ ed.text.drop ed.caret ∧
      (ed.typeText text).2.caret = ed.caret + text.length ∧ keys.enters = text.count '\n') ∧
    (ed.text = [] → ∃ keys ed', (ed.typeText text).1 = .ok keys ∧ ed.paste text = .ok ed' ∧
      (ed.typeText text).2.text = ed'.text ∧ (ed.typeText text).2.buffer.tags = ed'.buffer.tags ∧
      (ed.typeText text).2.caret = ed'.caret) := by
  obtain ⟨z, hz⟩ := hreach.simulated
  have hbetween := Typist.between_of_le (t := ⟨ed, ⟨0, 0, 0⟩⟩) hz.caret_le
  have hbefore := hbetween.before
  dsimp only at hbetween hbefore
  have hindented : Indentation.before ed.text ed.caret ≠ [] →
      (ed.typeText text).1 = .error .diverged := by
    intro hne
    exact typeText_of_indented hbetween (hbefore ▸ hne) text
  have hplain : Indentation.before ed.text ed.caret = [] → ∃ t',
      ed.typeText text = (.ok t'.keys, t'.editor) ∧
        (Typist.mk ed ⟨0, 0, 0⟩).Writes (text.count '\n') (ed.text.take ed.caret ++ text)
          (ed.text.drop ed.caret) t' := by
    intro hnil
    exact typeText_of_plain hbetween (hbefore ▸ hnil) text
  have hiff : (∃ keys, (ed.typeText text).1 = .ok keys) ↔
      Indentation.before ed.text ed.caret = [] := by
    constructor
    · rintro ⟨keys, hkeys⟩
      by_contra hne
      rw [hindented hne] at hkeys
      cases hkeys
    · intro hnil
      obtain ⟨t', ht', -⟩ := hplain hnil
      exact ⟨t'.keys, by rw [ht']⟩
  refine ⟨?_, hiff, hindented, ?_, ?_⟩
  · intro target t hcaret
    have h := Typist.between_of_le hcaret
    exact Keyboard.settles_matchIndent h h.caret.ge
  · intro keys hkeys
    obtain ⟨t', ht', hwrites⟩ := hplain (hiff.1 ⟨keys, hkeys⟩)
    rw [ht'] at hkeys ⊢
    obtain rfl : t'.keys = keys := Except.ok.inj hkeys
    refine ⟨hwrites.text, ?_, hwrites.enters.trans (Nat.zero_add _)⟩
    rw [hwrites.caret, List.length_append, ← hbetween.caret]
  · intro hnil
    have hcaret : ed.caret = 0 := by
      have hle := hz.caret_le
      rw [← Buffer.length_text, ← Editor.text, hnil] at hle
      exact Nat.le_zero.1 hle
    exact typeText_of_nil hnil hcaret text

/-- A text with a deeper and then a shallower line is typed behind a line that is indented. -/
theorem typeText_reproduces_nested :
    ((ofText "\tx\n".toList).run [.edit (.insert 3 [])]).Reachable ∧
      ∃ keys, (((ofText "\tx\n".toList).run [.edit (.insert 3 [])]).typeText
          "if\n  fi\n y".toList).1 = .ok keys ∧
        (((ofText "\tx\n".toList).run [.edit (.insert 3 [])]).typeText
          "if\n  fi\n y".toList).2.text = "\tx\nif\n  fi\n y".toList ∧
        keys.enters = 2 := by
  have hreach : ((ofText "\tx\n".toList).run [.edit (.insert 3 [])]).Reachable :=
    ⟨_, _, .ofText _, rfl⟩
  obtain ⟨-, hiff, -, hok, -⟩ := typeText_reproduces hreach "if\n  fi\n y".toList
  obtain ⟨keys, hkeys⟩ := hiff.2 (by decide)
  obtain ⟨htext, -, henters⟩ := hok keys hkeys
  exact ⟨hreach, keys, hkeys, htext.trans (by decide), henters.trans (by decide)⟩

end Editor
end MetaPostEditor
