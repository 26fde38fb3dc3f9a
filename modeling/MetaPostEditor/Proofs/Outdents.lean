import MetaPostEditor.Proofs.EditedText
import MetaPostEditor.Proofs.Operations

/-!
# Going back to shallower indentations

The indentation at a place is that of the line the place lies on, up to the place.  Backspace in an
indentation goes back to the nearest line above that is indented less.  This file says both by the
list of the lines before the place (`LinesBefore`), in which the nearest such line is the last
(`Shallower`).

Each Backspace leaves less of the indentation than there was (`Editor.AtIndent.press_backspace`), so
some number of them ends at the start of the line (`Editor.AtIndent.exists_lands`).  The main
result, `Indentation.steps_back`, also says what the caret stands behind on the way there.
-/

namespace MetaPostEditor

namespace Indentation

/-- The indentation `w` is that of the last of the lines `ls` that is indented less than `depth`,
and it is empty if there is no such line. -/
inductive Shallower (depth : Nat) (ls : List (List Char)) : List Char → Prop
  | none (h : ∀ line ∈ ls, depth ≤ (ofLine line).length) : Shallower depth ls []
  | line {us vs : List (List Char)} {line : List Char} (hls : ls = us ++ line :: vs)
      (hline : (ofLine line).length < depth) (hvs : ∀ v ∈ vs, depth ≤ (ofLine v).length) :
      Shallower depth ls (ofLine line)

variable {text l : List Char} {offset : Nat} {ls : List (List Char)}

/-- Among lines, the search from the last one on finds the nearest that is indented less. -/
lemma shallower_find? (depth : Nat) (ls : List (List Char)) :
    Shallower depth ls
      (((ls.reverse.map ofLine).find? fun indent => indent.length < depth).getD []) := by
  rw [List.find?_map]
  cases hfind : ls.reverse.find? ((fun indent => decide (indent.length < depth)) ∘ ofLine) with
  | none =>
    rw [List.find?_eq_none] at hfind
    refine .none fun line hline => ?_
    simpa using hfind line (List.mem_reverse.2 hline)
  | some line =>
    obtain ⟨hline, as, bs, hls, has⟩ := List.find?_eq_some_iff_append.1 hfind
    have hsplit : ls = bs.reverse ++ line :: as.reverse := by
      rw [← List.reverse_reverse ls, hls]
      simp
    refine .line hsplit (by simpa using hline) fun v hv => ?_
    simpa using has v (List.mem_reverse.1 hv)

lemma LinesBefore.shallower (h : LinesBefore text offset ls l) :
    Shallower (ofLine l).length ls (shallowerBefore text offset) := by
  rw [h.shallowerBefore_eq]
  exact shallower_find? _ ls

lemma Shallower.eq_nil_or {depth : Nat} {w : List Char} (h : Shallower depth ls w) :
    w = [] ∨ ∃ line ∈ ls, w = ofLine line := by
  cases h with
  | none => exact .inl rfl
  | @line us vs line hls => exact .inr ⟨line, by simp [hls], rfl⟩

lemma Shallower.length_le {depth : Nat} {w : List Char} (h : Shallower depth ls w) :
    w.length ≤ depth := by
  cases h with
  | none => exact Nat.zero_le _
  | line _ hline => exact hline.le

lemma Shallower.all_isWhiteSpace {depth : Nat} {w : List Char} (h : Shallower depth ls w) :
    w.all Unicode.isWhiteSpace = true := by
  cases h with
  | none => rfl
  | line => exact List.all_takeWhile

lemma Shallower.newline_notMem {depth : Nat} {w : List Char} (h : Shallower depth ls w)
    (hls : ∀ line ∈ ls, '\n' ∉ line) : '\n' ∉ w := by
  rcases h.eq_nil_or with rfl | ⟨line, hmem, rfl⟩
  · exact List.not_mem_nil
  · exact fun hc => hls line hmem ((List.takeWhile_prefix _).subset hc)

end Indentation

/-! ## Backspace after Backspace -/

namespace Editor

open Indentation

/-- The caret stands behind the white space `v` that its line starts with.  Above are the lines
`ls`, and `b` is what follows the caret. -/
structure AtIndent (ed : Editor) (ls : List (List Char)) (v b : List Char) : Prop where
  text : ed.text = unlines ls ++ v ++ b
  caret : ed.caret = (unlines ls ++ v).length
  earlier : ∀ line ∈ ls, '\n' ∉ line
  blank : v.all Unicode.isWhiteSpace = true
  line : '\n' ∉ v

/-- Each Backspace is carried out, and `ws` lists the white space that the caret stands behind after
the first of them, after the second and so on. -/
inductive Lands (ls : List (List Char)) (b : List Char) : Editor → List (List Char) → Prop
  | nil (ed : Editor) : Lands ls b ed []
  | cons {ed ed' : Editor} {w : List Char} {ws : List (List Char)}
      (hpress : ed.apply (.delete (ed.caret - 1) 1) = .ok (ed'.caret, ed'))
      (hat : ed'.AtIndent ls w b) (hrest : Lands ls b ed' ws) : Lands ls b ed (w :: ws)

variable {ed : Editor} {ls : List (List Char)} {v b : List Char}

/-- One Backspace leaves the indentation of an earlier line that is indented less than what is left,
or one character less if outdents are off. -/
lemma AtIndent.press_backspace (h : ed.AtIndent ls v b) (hv : v ≠ []) :
    ∃ ed' w, ed.apply (.delete (ed.caret - 1) 1) = .ok (ed'.caret, ed') ∧
      ed'.AtIndent ls w b ∧ ed'.options = ed.options ∧
      if ed.options.outdent then Shallower v.dropLast.length ls w else w = v.dropLast := by
  obtain ⟨htext, hcaret, hls, hblank, hline⟩ := h
  obtain ⟨u, c, rfl⟩ : ∃ u c, v = u ++ [c] := ⟨_, _, (List.dropLast_append_getLast hv).symm⟩
  rw [List.all_append, Bool.and_eq_true] at hblank
  have hu : '\n' ∉ u := fun hmem => hline (List.mem_append_left _ hmem)
  have hbefore : LinesBefore (unlines ls ++ u) (unlines ls ++ u).length ls u :=
    ⟨List.take_length, hls, hu⟩
  rw [← List.append_assoc] at htext hcaret
  have hpos : ed.caret - 1 = (unlines ls ++ u).length := by
    rw [hcaret, List.length_append, List.length_singleton, Nat.add_sub_cancel]
  obtain ⟨ed', happly, htext', hcaret', hoptions⟩ :=
    ed.apply_of_text htext (e := .delete (ed.caret - 1) 1) hpos rfl
  rw [Edit.outcome_of_isDeletion rfl] at happly htext' hcaret'
  rw [← hcaret'] at happly
  have hback := goesBack_iff (unlines_ends ls) hu ed.options.outdent [c]
  rw [List.dropLast_concat]
  by_cases hgoes : goesBack ed.options.outdent (unlines ls ++ u) [c] = true
  · obtain ⟨hon, -, -, hwhite⟩ := hback.1 hgoes
    have hshallower := hbefore.shallower
    rw [ofLine_of_blank (List.all_eq_true.1 hwhite)] at hshallower
    rw [if_pos hgoes, lineStart_of_newline (unlines_ends ls) hu, List.take_left] at htext' hcaret'
    refine ⟨ed', _, happly, ⟨htext', hcaret', hls, hshallower.all_isWhiteSpace,
      hshallower.newline_notMem hls⟩, hoptions, ?_⟩
    rwa [if_pos hon]
  · rw [if_neg hgoes] at htext' hcaret'
    refine ⟨ed', u, happly, ⟨htext', hcaret', hls, hblank.1, hu⟩, hoptions, ?_⟩
    split
    · next hon =>
      -- nothing is left before the caret, and that is no deeper than any line
      obtain rfl : u = [] := by
        by_contra hne
        exact hgoes (hback.2 ⟨hon, hblank.2, hne, hblank.1⟩)
      exact .none fun _ _ => Nat.zero_le _
    · rfl

/-- Backspace after Backspace ends at the start of the line. -/
lemma AtIndent.exists_lands (h : ed.AtIndent ls v b) (hv : v ≠ []) :
    ∃ ws, ed.Lands ls b ws ∧ ws.getLast? = some [] ∧
      (v :: ws).IsChain (fun u w => w.length < u.length) ∧
      if ed.options.outdent then
        (∀ w ∈ ws, w = [] ∨ ∃ line ∈ ls, w = ofLine line) ∧
          (v :: ws).IsChain (fun u w => Shallower u.dropLast.length ls w)
      else (v :: ws).IsChain (fun u w => w = u.dropLast) := by
  -- each Backspace leaves less before the caret than there was
  induction hn : v.length using Nat.strong_induction_on generalizing ed v with
  | _ n ih =>
    subst hn
    obtain ⟨ed', w, hpress, hat, hoptions, hw⟩ := h.press_backspace hv
    have hlt : w.length < v.length := by
      have hpos := List.length_pos_iff.2 hv
      have hle : w.length ≤ v.dropLast.length := by
        split at hw
        · exact hw.length_le
        · exact hw ▸ le_rfl
      rw [List.length_dropLast] at hle
      omega
    by_cases hend : w = []
    · subst hend
      refine ⟨[[]], .cons hpress hat (.nil ed'), rfl, by simpa using hlt, ?_⟩
      simpa using hw
    · obtain ⟨ws, hlands, hlast, hchain, hsteps⟩ := ih w.length hlt hat hend rfl
      rw [hoptions] at hsteps
      refine ⟨w :: ws, .cons hpress hat hlands, ?_, .cons_cons hlt hchain, ?_⟩
      · rw [List.getLast?_cons, hlast]
        rfl
      · split
        · next hon =>
          rw [if_pos hon] at hw hsteps
          exact ⟨List.forall_mem_cons.2 ⟨hw.eq_nil_or, hsteps.1⟩, .cons_cons hw hsteps.2⟩
        · next hoff =>
          rw [if_neg hoff] at hw hsteps
          exact .cons_cons hw hsteps

end Editor

/-! ## All steps back -/

namespace Indentation

/-- **Going back to shallower indentations.**  The text before a place is lines `ls` with their
newlines and a part `l` of the line the place lies on, in one way.  The indentation at the place is
the white space that `l` starts with.  The shallower one is that of the nearest line of `ls` that is
indented less, or empty, and it is strictly shorter.

Where `l` is white space only, Backspace after Backspace is carried out until the caret is at the
start of the line, and each leaves less of the line than there was.

* If outdents are on, the caret is each time behind the indentation of an earlier line or at the
  start of its line.  That line is the nearest one that is indented less than what a plain Backspace
  would leave.
* If they are off, each Backspace removes one character. -/
theorem steps_back (text : List Char) (offset : Nat) :
    (∃! lines : List (List Char) × List Char, LinesBefore text offset lines.1 lines.2) ∧
    ∀ ls l, LinesBefore text offset ls l →
      before text offset = ofLine l ∧
      Shallower (ofLine l).length ls (shallowerBefore text offset) ∧
      (before text offset ≠ [] →
        (shallowerBefore text offset).length < (before text offset).length) ∧
      ∀ ed : Editor, ed.text = text → ed.caret = offset → offset ≤ text.length → l ≠ [] →
        l.all Unicode.isWhiteSpace = true →
        ∃ ws, ed.Lands ls (text.drop offset) ws ∧ ws.getLast? = some [] ∧
          (l :: ws).IsChain (fun v w => w.length < v.length) ∧
          if ed.options.outdent then
            (∀ w ∈ ws, w = [] ∨ ∃ line ∈ ls, w = ofLine line) ∧
              (l :: ws).IsChain (fun v w => Shallower v.dropLast.length ls w)
          else (l :: ws).IsChain (fun v w => w = v.dropLast) := by
  refine ⟨?_, fun ls l h => ⟨h.before_eq, h.shallower, length_shallowerBefore_lt, ?_⟩⟩
  · obtain ⟨ls, l, h⟩ := exists_linesBefore text offset
    refine ⟨(ls, l), h, fun ⟨ls', l'⟩ h' => ?_⟩
    obtain ⟨hls, hl⟩ := List.append_inj' (h'.lines.symm.trans h.lines) rfl
    exact Prod.ext hls (List.singleton_inj.1 hl)
  · intro ed htext hcaret hoffset hne hblank
    have hat : ed.AtIndent ls l (text.drop offset) := by
      refine ⟨?_, ?_, h.earlier, hblank, h.last⟩
      · rw [htext, ← h.split, List.take_append_drop]
      · rw [hcaret, ← h.split, List.length_take_of_le hoffset]
    exact hat.exists_lands hne

/-- The caret is behind four blanks, below lines that are indented by none, two and five. -/
theorem steps_back_nested :
    LinesBefore "a\n  b\n     c\n    e".toList 17 ["a".toList, "  b".toList, "     c".toList]
        "    ".toList ∧
      shallowerBefore "a\n  b\n     c\n    e".toList 17 = "  ".toList ∧
      ∃ ws, Editor.Lands ["a".toList, "  b".toList, "     c".toList] "e".toList
          { Editor.ofText "a\n  b\n     c\n    e".toList with caret := 17 } ws ∧
        ws.getLast? = some [] := by
  have hlines : LinesBefore "a\n  b\n     c\n    e".toList 17
      ["a".toList, "  b".toList, "     c".toList] "    ".toList :=
    ⟨by decide, by decide, by decide⟩
  obtain ⟨-, -, -, hruns⟩ := (steps_back _ _).2 _ _ hlines
  obtain ⟨ws, hlands, hlast, -⟩ :=
    hruns { Editor.ofText "a\n  b\n     c\n    e".toList with caret := 17 }
      (by decide +kernel) rfl (by decide) (by decide) (by decide)
  exact ⟨hlines, by decide +kernel, ws, hlands, hlast⟩

/-- With outdents off, the caret comes to stand behind white space that is neither empty nor the
indentation of an earlier line. -/
theorem steps_back_outdent_off :
    ¬ ∀ (ed : Editor) (ls : List (List Char)) (l : List Char) (ws : List (List Char)),
      LinesBefore ed.text ed.caret ls l → ed.caret ≤ ed.text.length → l ≠ [] →
      l.all Unicode.isWhiteSpace = true → ed.Lands ls (ed.text.drop ed.caret) ws →
      ∀ w ∈ ws, w = [] ∨ ∃ line ∈ ls, w = ofLine line := by
  intro h
  obtain ⟨ed, htext, hcaret, hoff⟩ : ∃ ed : Editor,
      ed.text = "    ".toList ∧ ed.caret = 4 ∧ ed.options.outdent = false :=
    ⟨((Editor.empty Options.default).set "nooutdent").2.after (.insert 0 "    ".toList),
      by decide +kernel, by decide +kernel, by decide +kernel⟩
  have hat : ed.AtIndent [] "    ".toList [] :=
    ⟨htext, hcaret, by simp, by decide, by decide⟩
  obtain ⟨ed', w, hpress, hat', -, hw⟩ := hat.press_backspace (by decide)
  rw [if_neg (by simp [hoff])] at hw
  have hdrop : ed.text.drop ed.caret = [] := by
    rw [htext, hcaret]
    decide
  have hlands := h ed [] "    ".toList [w] ⟨by rw [htext, hcaret]; decide, by simp, by decide⟩
    (by rw [htext, hcaret]; decide) (by decide) (by decide)
    (hdrop ▸ .cons hpress hat' (.nil ed')) w List.mem_cons_self
  simp [hw] at hlands

end Indentation
end MetaPostEditor
