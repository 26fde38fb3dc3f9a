import MetaPostEditor.Proofs.Splices

/-!
# Calls on a buffer

A buffer is changed through three calls, to which ranges, texts, tags and tokens come from outside.
None of them need fit together: a range may be reversed, and tokens may say that they tag more or
fewer characters than they have.  What a call is refused for depends on the text alone, and the
range is looked at first (`Buffer.Mutation.refusal?`).

To say that text and tags never come apart, this file keeps them in two separate strips, each of
which a call cuts and joins on its own (`Strips`).  Nothing but the order of the checks keeps the
strips equally long.  The main result, `Buffer.calls_strips`, says that a buffer is at all times the
two strips laid side by side, and what each call does and when it is refused.
-/

namespace MetaPostEditor

namespace Buffer

/-- A call that changes a buffer. -/
inductive Mutation where
  | replace (start stop : Nat) (tokens : List Token)
  | replaceTagged (start stop : Nat) (text : List Char) (tags : List Tag)
  | restyle (start stop : Nat) (tokens : List Token)
deriving DecidableEq

namespace Mutation

/-- Where the range starts. -/
def start : Mutation → Nat
  | replace start _ _ | replaceTagged start _ _ _ | restyle start _ _ => start

/-- Where the range ends. -/
def stop : Mutation → Nat
  | replace _ stop _ | replaceTagged _ stop _ _ | restyle _ stop _ => stop

/-- The text for the range. -/
def text : Mutation → List Char
  | replace _ _ tokens | restyle _ _ tokens => tokens.flatMap (·.text)
  | replaceTagged _ _ text _ => text

/-- The tags for the range, as many of each token as its length says. -/
def tags : Mutation → List Tag
  | replace _ _ tokens | restyle _ _ tokens =>
    tokens.flatMap fun token => List.replicate token.length token.tag
  | replaceTagged _ _ _ tags => tags

/-- The call is to leave the text as it is. -/
def isRestyle : Mutation → Bool
  | restyle _ _ _ => true
  | _ => false

/-- The range is reversed or reaches behind the end of a text of the given length. -/
def Outside (m : Mutation) (length : Nat) : Prop :=
  m.stop < m.start ∨ length < m.stop

/-- There is not one tag for each character, or a text that is to stay is another one. -/
def Unfit (m : Mutation) (text : List Char) : Prop :=
  m.text.length ≠ m.tags.length ∨ m.isRestyle = true ∧ m.text ≠ (text.take m.stop).drop m.start

instance (m : Mutation) (length : Nat) : Decidable (m.Outside length) :=
  inferInstanceAs (Decidable (_ ∨ _))

instance (m : Mutation) (text : List Char) : Decidable (m.Unfit text) :=
  inferInstanceAs (Decidable (_ ∨ _))

/-- Why the call is refused on a text. -/
def refusal? (m : Mutation) (text : List Char) : Option EditError :=
  if m.Outside text.length then some (.outOfRange m.start (m.stop - m.start) text.length)
  else if m.Unfit text then some (.inconsistent m.start)
  else none

lemma refusal?_eq_some_iff {m : Mutation} {text : List Char} {e : EditError} :
    m.refusal? text = some e ↔
      (m.Outside text.length ∧ e = .outOfRange m.start (m.stop - m.start) text.length) ∨
        (¬ m.Outside text.length ∧ m.Unfit text ∧ e = .inconsistent m.start) := by
  rw [refusal?]
  split
  · next hout => simp [hout, eq_comm]
  · next hin =>
    split
    · next hunfit => simp [hin, hunfit, eq_comm]
    · next hfit => simp [hin, hfit]

lemma refusal?_eq_none_iff {m : Mutation} {text : List Char} :
    m.refusal? text = none ↔ ¬ m.Outside text.length ∧ ¬ m.Unfit text := by
  rw [refusal?]
  split
  · next hout => simp [hout]
  · next hin =>
    split
    · next hunfit => simp [hunfit]
    · next hfit => simp [hin, hfit]

end Mutation

/-- Makes a change. -/
def mutate (b : Buffer) : Mutation → Except EditError (Buffer × Change)
  | .replace start stop tokens => b.replace start stop tokens
  | .replaceTagged start stop text tags => b.replaceTagged start stop text tags
  | .restyle start stop tokens => b.restyle start stop tokens

/-- What can be done with a buffer. -/
inductive Call where
  | mutate (m : Mutation)
  | markSaved
deriving DecidableEq

/-- The buffer after a call, whether the call fails or not. -/
def call (b : Buffer) : Call → Buffer
  | .mutate m =>
    match b.mutate m with
    | .ok (b', _) => b'
    | .error _ => b
  | .markSaved => b.markSaved

/-- The buffer after calls. -/
def calls (b : Buffer) (cs : List Call) : Buffer :=
  cs.foldl call b

/-- A buffer on which no call has been made. -/
inductive Initial : Buffer → Prop
  | empty : Initial empty
  | ofText (text : List Char) : Initial (ofText text)

variable {b : Buffer} {m : Mutation} {start stop : Nat}

/-! ## What a call does -/

lemma checkRange_of_outside (h : stop < start ∨ b.text.length < stop) :
    b.checkRange start stop = .error (.outOfRange start (stop - start) b.text.length) := by
  rw [length_text] at h ⊢
  rw [checkRange, if_neg (by omega)]

lemma replaceTagged_of_outside (h : stop < start ∨ b.text.length < stop) (text : List Char)
    (tags : List Tag) :
    b.replaceTagged start stop text tags =
      .error (.outOfRange start (stop - start) b.text.length) := by
  rw [replaceTagged, checkRange_of_outside h]
  rfl

lemma restyle_of_outside (h : stop < start ∨ b.text.length < stop) (tokens : List Token) :
    b.restyle start stop tokens = .error (.outOfRange start (stop - start) b.text.length) := by
  rw [restyle, checkRange_of_outside h]
  rfl

lemma replaceTagged_of_range (h : b.checkRange start stop = .ok ()) (text : List Char)
    (tags : List Tag) :
    b.replaceTagged start stop text tags =
      if text.length ≠ tags.length then .error (.inconsistent start)
      else .ok (b.splice start stop (List.zipWith Cell.mk text tags)) := by
  rw [replaceTagged, h]
  simp only [bind, Except.bind]
  split <;> rfl

lemma restyle_of_range (h : b.checkRange start stop = .ok ()) (tokens : List Token) :
    b.restyle start stop tokens =
      if tokens.flatMap (·.text) ≠ (b.text.take stop).drop start then .error (.inconsistent start)
      else b.replace start stop tokens := by
  have hslice : (b.cellsIn start stop).map (·.char) = (b.text.take stop).drop start := by
    rw [cellsIn, List.map_drop, List.map_take, text]
  rw [restyle, h, hslice]
  simp only [bind, Except.bind]
  split <;> rfl

/-- A call with a wrong range is refused for it, whatever else is wrong. -/
lemma mutate_of_outside (h : m.Outside b.text.length) :
    b.mutate m = .error (.outOfRange m.start (m.stop - m.start) b.text.length) := by
  cases m with
  | replace start stop tokens => exact replaceTagged_of_outside h _ _
  | replaceTagged start stop text tags => exact replaceTagged_of_outside h text tags
  | restyle start stop tokens => exact restyle_of_outside h tokens

/-- A call whose range lies in the text is refused for what does not fit, and otherwise its cells
take the place of the range. -/
lemma mutate_of_inside (h : ¬ m.Outside b.text.length) :
    b.mutate m =
      if m.Unfit b.text then .error (.inconsistent m.start)
      else .ok (b.splice m.start m.stop (List.zipWith Cell.mk m.text m.tags)) := by
  have hrange : b.checkRange m.start m.stop = .ok () := by
    rw [Mutation.Outside, length_text, not_or] at h
    exact checkRange_eq_ok (Nat.not_lt.1 h.1) (Nat.not_lt.1 h.2)
  have htagged := replaceTagged_of_range hrange m.text m.tags
  cases m with
  | replace start stop tokens =>
    refine htagged.trans (if_congr ?_ rfl rfl)
    simp [Mutation.Unfit, Mutation.isRestyle]
  | replaceTagged start stop text tags =>
    refine htagged.trans (if_congr ?_ rfl rfl)
    simp [Mutation.Unfit, Mutation.isRestyle]
  | restyle start stop tokens =>
    refine (restyle_of_range hrange tokens).trans ?_
    split
    · next hother => rw [if_pos (.inr ⟨rfl, hother⟩)]
    · next hsame =>
      refine htagged.trans (if_congr ?_ rfl rfl)
      rw [Mutation.Unfit, or_iff_left]
      rintro ⟨-, hother⟩
      exact hsame hother

/-- All that a call can do. -/
lemma mutate_eq (b : Buffer) (m : Mutation) :
    b.mutate m =
      match m.refusal? b.text with
      | some e => .error e
      | none => .ok (b.splice m.start m.stop (List.zipWith Cell.mk m.text m.tags)) := by
  rw [Mutation.refusal?]
  by_cases hout : m.Outside b.text.length
  · rw [mutate_of_outside hout, if_pos hout]
  · rw [mutate_of_inside hout, if_neg hout]
    split <;> rfl

lemma mutate_eq_error_iff {e : EditError} :
    b.mutate m = .error e ↔ m.refusal? b.text = some e := by
  rw [mutate_eq]
  cases m.refusal? b.text <;> simp

end Buffer

/-! ## Two strips -/

/-- A text and tags for it, each for itself. -/
structure Strips where
  text : List Char
  tags : List Tag
deriving DecidableEq

namespace Strips

/-- Puts text and tags in the place of a range, on each strip for itself. -/
def splice (s : Strips) (start stop : Nat) (text : List Char) (tags : List Tag) : Strips :=
  ⟨s.text.take start ++ text ++ s.text.drop stop, s.tags.take start ++ tags ++ s.tags.drop stop⟩

/-- The strips after a call. -/
def call (s : Strips) : Buffer.Call → Strips
  | .mutate m =>
    match m.refusal? s.text with
    | some _ => s
    | none => s.splice m.start m.stop m.text m.tags
  | .markSaved => s

end Strips

namespace Buffer

variable {b : Buffer} {m : Mutation}

/-- The text and the tags of a buffer. -/
def strips (b : Buffer) : Strips :=
  ⟨b.text, b.tags⟩

/-- Cells that take the place of a range are text and tags that do so, if there is a tag for each
character. -/
lemma strips_splice {start stop : Nat} {text : List Char} {tags : List Tag} (h : start ≤ stop)
    (hlen : text.length = tags.length) :
    (b.splice start stop (List.zipWith Cell.mk text tags)).1.strips =
      b.strips.splice start stop text tags := by
  have hchars : (List.zipWith Cell.mk text tags).map (·.char) = text := by
    rw [← List.map_uncurry_zip_eq_zipWith, List.map_map]
    exact List.map_fst_zip (Nat.le_of_eq hlen)
  have htags : (List.zipWith Cell.mk text tags).map (·.tag) = tags := by
    rw [← List.map_uncurry_zip_eq_zipWith, List.map_map]
    exact List.map_snd_zip (Nat.le_of_eq hlen.symm)
  simp only [strips, Strips.splice, Buffer.text, Buffer.tags, cells_splice b _ h, List.map_append,
    List.map_take, List.map_drop, hchars, htags]

/-- A call that is accepted puts its text and its tags in the place of its range. -/
lemma strips_of_mutate {b' : Buffer} {c : Change} (h : b.mutate m = .ok (b', c)) :
    m.refusal? b.text = none ∧ b'.strips = b.strips.splice m.start m.stop m.text m.tags := by
  rw [mutate_eq] at h
  cases hrefusal : m.refusal? b.text with
  | some e =>
    rw [hrefusal] at h
    cases h
  | none =>
    rw [hrefusal] at h
    obtain ⟨hin, hfit⟩ := Mutation.refusal?_eq_none_iff.1 hrefusal
    rw [Mutation.Outside, not_or, Nat.not_lt] at hin
    rw [Mutation.Unfit, not_or, ne_eq, not_not] at hfit
    have hb' : b' = (b.splice m.start m.stop (List.zipWith Cell.mk m.text m.tags)).1 :=
      congrArg Prod.fst (Except.ok.inj h).symm
    exact ⟨rfl, by rw [hb', strips_splice hin.1 hfit.1]⟩

lemma call_of_error {e : EditError} (h : b.mutate m = .error e) : b.call (.mutate m) = b := by
  rw [call, h]

lemma call_of_ok {b' : Buffer} {c : Change} (h : b.mutate m = .ok (b', c)) :
    b.call (.mutate m) = b' := by
  rw [call, h]

/-- A call does to a buffer what it does to the strips. -/
lemma strips_call (b : Buffer) (c : Call) : (b.call c).strips = b.strips.call c := by
  cases c with
  | markSaved => rfl
  | mutate m =>
    cases hm : b.mutate m with
    | error e =>
      rw [call_of_error hm, Strips.call]
      rw [mutate_eq_error_iff] at hm
      simp only [strips, hm]
    | ok result =>
      obtain ⟨b', change⟩ := result
      obtain ⟨hrefusal, hstrips⟩ := strips_of_mutate hm
      rw [call_of_ok hm, hstrips, Strips.call]
      simp only [strips, hrefusal]

lemma strips_calls (b : Buffer) (cs : List Call) :
    (b.calls cs).strips = cs.foldl Strips.call b.strips := by
  induction cs generalizing b with
  | nil => rfl
  | cons c cs ih => rw [calls, List.foldl_cons, ← calls, ih, strips_call, List.foldl_cons]

/-- A text that must be the one in the range takes its own place. -/
lemma text_of_restyle {b' : Buffer} {c : Change} (h : b.mutate m = .ok (b', c))
    (hrestyle : m.isRestyle = true) : b'.text = b.text := by
  obtain ⟨hrefusal, hstrips⟩ := strips_of_mutate h
  obtain ⟨hin, hfit⟩ := Mutation.refusal?_eq_none_iff.1 hrefusal
  have hstart : m.start ≤ m.stop := Nat.not_lt.1 fun hlt => hin (.inl hlt)
  have hsame : m.text = (b.text.take m.stop).drop m.start := by
    by_contra hother
    exact hfit (.inr ⟨hrestyle, hother⟩)
  have htake : b.text.take m.start = (b.text.take m.stop).take m.start := by
    rw [List.take_take, Nat.min_eq_left hstart]
  calc b'.text = b.text.take m.start ++ m.text ++ b.text.drop m.stop := congrArg Strips.text hstrips
    _ = b.text.take m.stop ++ b.text.drop m.stop := by rw [hsame, htake, List.take_append_drop]
    _ = b.text := List.take_append_drop _ _

/-- All characters of a new buffer have the tag `normal`. -/
lemma Initial.strips_eq {b₀ : Buffer} (h : Initial b₀) :
    b₀.strips = ⟨b₀.text, List.replicate b₀.text.length .normal⟩ := by
  cases h with
  | empty => rfl
  | ofText text => rw [strips, text_ofText, tags_ofText]

/-- **Calls on a buffer.**  After any calls on a new buffer its text and its tags are the two strips
that the same calls make, so there is one tag for each character.  A call is refused for its range
if that is reversed or reaches behind the end of the text.  Otherwise it is refused if there is not
one tag for each character of its text, or if the text is to stay and is another one.  A call that
is refused leaves the buffer as it is.  One that is accepted puts its text and its tags in the place
of its range and changes nothing before and behind it, and a text that is to stay does so. -/
theorem calls_strips {b₀ : Buffer} (h₀ : Initial b₀) {cs : List Call} (hb : b₀.calls cs = b) :
    b.strips = cs.foldl Strips.call ⟨b₀.text, List.replicate b₀.text.length .normal⟩ ∧
    b.tags.length = b.text.length ∧
    ∀ m : Mutation,
      (∀ e, b.mutate m = .error e ↔
        ((m.stop < m.start ∨ b.text.length < m.stop) ∧
          e = .outOfRange m.start (m.stop - m.start) b.text.length) ∨
        ((m.start ≤ m.stop ∧ m.stop ≤ b.text.length) ∧
          (m.text.length ≠ m.tags.length ∨
            m.isRestyle = true ∧ m.text ≠ (b.text.take m.stop).drop m.start) ∧
          e = .inconsistent m.start)) ∧
      (∀ e, b.mutate m = .error e → b.call (.mutate m) = b) ∧
      (∀ b' c, b.mutate m = .ok (b', c) →
        b.call (.mutate m) = b' ∧
        b'.text = b.text.take m.start ++ m.text ++ b.text.drop m.stop ∧
        b'.tags = b.tags.take m.start ++ m.tags ++ b.tags.drop m.stop ∧
        (m.isRestyle = true → b'.text = b.text)) := by
  refine ⟨?_, ?_, fun m => ⟨fun e => ?_, fun e he => call_of_error he, fun b' c hm => ?_⟩⟩
  · rw [← hb, strips_calls, h₀.strips_eq]
  · rw [length_tags, length_text]
  · have hin : m.start ≤ m.stop ∧ m.stop ≤ b.text.length ↔ ¬ m.Outside b.text.length := by
      rw [Mutation.Outside]
      omega
    rw [mutate_eq_error_iff, Mutation.refusal?_eq_some_iff, hin]
    rfl
  · obtain ⟨-, hstrips⟩ := strips_of_mutate hm
    exact ⟨call_of_ok hm, congrArg Strips.text hstrips, congrArg Strips.tags hstrips,
      text_of_restyle hm⟩

/-- Two tokens whose lengths are both wrong, and together right, are accepted, and then a call that
restyles them is refused because one tag is missing. -/
theorem calls_strips_wrong_lengths :
    ((ofText ['a']).calls [.mutate (.replace 0 1
        [⟨.keyword, ['i', 'f'], 0, 1⟩, ⟨.digits, ['1'], 2, 2⟩]), .markSaved]).strips =
      ⟨['i', 'f', '1'], [.keyword, .digits, .digits]⟩ ∧
    ((ofText ['a']).calls [.mutate (.replace 0 1
        [⟨.keyword, ['i', 'f'], 0, 1⟩, ⟨.digits, ['1'], 2, 2⟩]), .markSaved]).mutate
      (.restyle 1 3 [⟨.normal, ['f', '1'], 0, 1⟩]) = .error (.inconsistent 1) := by
  obtain ⟨hstrips, -, hcalls⟩ := calls_strips (.ofText ['a'])
    (show (ofText ['a']).calls [.mutate (.replace 0 1
      [⟨.keyword, ['i', 'f'], 0, 1⟩, ⟨.digits, ['1'], 2, 2⟩]), .markSaved] = _ from rfl)
  refine ⟨hstrips.trans (by decide), ?_⟩
  exact ((hcalls _).1 _).2 (.inr (by decide))

end Buffer
end MetaPostEditor
