import MetaPostEditor.Terminal.Pen
import Mathlib.Tactic.Lemma

/-!
# What a terminal shows

A pen leaves out escape sequences that it holds to be needless, so what it writes is right only if
the terminal is in the state that the pen believes it to be in.  This file describes the terminal on
its own, as a machine that receives one character after the other and keeps the look of the text
that comes next (`Screen`), and follows both through all that can be done with a pen.

* A sequence changes the look of the terminal by its numbers (`Screen.receiveAll_sequence`).
* After the sequences for a change of look the terminal has that look (`Screen.receiveAll_take`).
* So the look of the pen is the look of the terminal after every call (`Screen.receiveAll_run`).

The main result, `Pen.run_shown`, says that the terminal shows exactly the texts of the spans in the
looks of their palettes, that it is back in the look it started with whenever the pen has finished,
and that nothing is written between two spans of one look.
-/

namespace MetaPostEditor
namespace Terminal

/-! ## The terminal -/

/-- The attribute that a number turns on. -/
def attributeOf? : Nat → Option Attribute
  | 1 => some .bold
  | 2 => some .dim
  | 3 => some .italic
  | 4 => some .underline
  | 7 => some .inverse
  | 9 => some .strikethrough
  | _ => none

namespace Look

/-- The look after a number that stands for itself.  Numbers without a meaning change nothing. -/
def selectOne (l : Look) (n : Nat) : Look :=
  if n = 0 then .plain
  else if n = 39 then { l with color := .default }
  else if 30 ≤ n ∧ n ≤ 37 then { l with color := .indexed (UInt8.ofNat (n - 30)) }
  else if 90 ≤ n ∧ n ≤ 97 then { l with color := .indexed (UInt8.ofNat (n - 82)) }
  else
    match attributeOf? n with
    | some a => { l with attributes := l.attributes.union (.single a) }
    | none => l

/-- The look after the numbers of a sequence.  A colour may take several of them. -/
def select (l : Look) : List Nat → Look
  | [] => l
  | 38 :: 5 :: n :: rest => { l with color := .indexed (UInt8.ofNat n) }.select rest
  | 38 :: 2 :: r :: g :: b :: rest =>
    { l with color := .rgb (UInt8.ofNat r) (UInt8.ofNat g) (UInt8.ofNat b) }.select rest
  | n :: rest => (l.selectOne n).select rest

end Look

/-- What a terminal has received of an escape sequence. -/
inductive Reading where
  /-- No sequence has begun. -/
  | text
  /-- The escape character has come. -/
  | escape
  /-- The bracket has come, then the numbers `before`, each with its semicolon, and the digits of
  `last`. -/
  | numbers (before : List Nat) (last : Nat)
deriving DecidableEq

/-- A terminal. -/
structure Screen where
  /-- The characters that are shown, each in its look. -/
  shown : List (Char × Look)
  /-- The look of the text that comes next. -/
  look : Look
  reading : Reading
deriving DecidableEq

namespace Screen

/-- A terminal that has received nothing. -/
def blank : Screen :=
  ⟨[], .plain, .text⟩

/-- Receives a character.  A number that is left out of a sequence is zero, and a sequence that does
not end with the letter `m` has no effect. -/
def receive (s : Screen) (c : Char) : Screen :=
  match s.reading with
  | .text =>
    if c = '\x1b' then { s with reading := .escape }
    else { s with shown := s.shown ++ [(c, s.look)] }
  | .escape => { s with reading := if c = '[' then .numbers [] 0 else .text }
  | .numbers before last =>
    if c.isDigit then { s with reading := .numbers before (10 * last + (c.toNat - '0'.toNat)) }
    else if c = ';' then { s with reading := .numbers (before ++ [last]) 0 }
    else if c = 'm' then ⟨s.shown, s.look.select (before ++ [last]), .text⟩
    else { s with reading := .text }

/-- Receives characters one after the other. -/
def receiveAll (s : Screen) (cs : List Char) : Screen :=
  cs.foldl receive s

variable {shown : List (Char × Look)} {look : Look}

lemma receiveAll_append (s : Screen) (cs ds : List Char) :
    s.receiveAll (cs ++ ds) = (s.receiveAll cs).receiveAll ds :=
  List.foldl_append

/-- Text without the escape character is shown as it comes. -/
lemma receiveAll_text {text : List Char} (h : '\x1b' ∉ text) :
    (Screen.mk shown look .text).receiveAll text =
      ⟨shown ++ text.map (·, look), look, .text⟩ := by
  induction text generalizing shown with
  | nil => simp [receiveAll]
  | cons c text ih =>
    rw [List.mem_cons, not_or] at h
    have hc : (Screen.mk shown look .text).receive c = ⟨shown ++ [(c, look)], look, .text⟩ := by
      simp only [receive, if_neg (Ne.symm h.1)]
    rw [receiveAll, List.foldl_cons, hc, ← receiveAll, ih h.2]
    simp

/-! ## Escape sequences -/

lemma receiveAll_digits {ds : List Char} (h : ∀ c ∈ ds, c.isDigit = true) (before : List Nat)
    (last : Nat) :
    (Screen.mk shown look (.numbers before last)).receiveAll ds =
      ⟨shown, look, .numbers before (Nat.ofDigitChars 10 ds last)⟩ := by
  induction ds generalizing last with
  | nil => rfl
  | cons c ds ih =>
    have hc : (Screen.mk shown look (.numbers before last)).receive c =
        ⟨shown, look, .numbers before (10 * last + (c.toNat - '0'.toNat))⟩ := by
      simp only [receive, h c List.mem_cons_self, if_true]
    rw [receiveAll, List.foldl_cons, hc, ← receiveAll,
      ih fun d hd => h d (List.mem_cons_of_mem _ hd)]
    rfl

lemma receiveAll_toDigits (before : List Nat) (n : Nat) :
    (Screen.mk shown look (.numbers before 0)).receiveAll (Nat.toDigits 10 n) =
      ⟨shown, look, .numbers before n⟩ := by
  have hdigits : ∀ c ∈ Nat.toDigits 10 n, c.isDigit = true := by
    intro c hc
    exact Nat.isDigit_of_mem_toDigits (by decide) (by decide) hc
  rw [receiveAll_digits hdigits, Nat.ofDigitChars_toDigits (by decide) (by decide)]

/-- The numbers of a sequence are received one by one, and take effect together. -/
lemma receiveAll_numbers (before : List Nat) (n : Nat) (rest : List Nat) :
    (Screen.mk shown look (.numbers before 0)).receiveAll
        ([';'].intercalate ((n :: rest).map (Nat.toDigits 10)) ++ ['m']) =
      ⟨shown, look.select (before ++ n :: rest), .text⟩ := by
  induction rest generalizing before n with
  | nil =>
    rw [List.map_cons, List.map_nil, List.intercalate_singleton, receiveAll_append,
      receiveAll_toDigits]
    rfl
  | cons m rest ih =>
    have hnext : (Screen.mk shown look (.numbers before n)).receiveAll [';'] =
        ⟨shown, look, .numbers (before ++ [n]) 0⟩ := rfl
    rw [List.map_cons, List.map_cons, List.intercalate_cons_cons, List.append_assoc,
      List.append_assoc, receiveAll_append, receiveAll_append, receiveAll_toDigits, hnext,
      ← List.map_cons, ih, List.append_assoc, List.singleton_append]

/-- A sequence changes the look by its numbers. -/
lemma receiveAll_sequence {codes : List Nat} (h : codes ≠ []) :
    (Screen.mk shown look .text).receiveAll (Sgr.sequence codes) =
      ⟨shown, look.select codes, .text⟩ := by
  obtain ⟨n, rest, rfl⟩ := List.exists_cons_of_ne_nil h
  have hopen : (Screen.mk shown look .text).receiveAll ['\x1b', '['] =
      ⟨shown, look, .numbers [] 0⟩ := rfl
  rw [Sgr.sequence, List.append_assoc, receiveAll_append, hopen, receiveAll_numbers,
    List.nil_append]

lemma receiveAll_reset :
    (Screen.mk shown look .text).receiveAll Sgr.reset = ⟨shown, .plain, .text⟩ :=
  receiveAll_sequence (List.cons_ne_nil _ _)

end Screen

/-! ## Colours and attributes -/

namespace Attributes

/-- Only bits of attributes are set. -/
def Known (s : Attributes) : Prop :=
  s.bits < 64

instance (s : Attributes) : Decidable s.Known :=
  inferInstanceAs (Decidable (_ < _))

lemma eq_empty_of_isEmpty {s : Attributes} (h : s.isEmpty = true) : s = empty := by
  have hbits : s.bits = 0 := by simpa [isEmpty] using h
  rw [empty, ← hbits]

/-- A set is made of the attributes in it, if no other bits are set. -/
lemma foldl_union_toList {s : Attributes} (h : s.Known) :
    s.toList.foldl (fun t a => t.union (single a)) empty = s := by
  have hall : ∀ n < 64, (Attributes.mk (UInt8.ofNat n)).toList.foldl
      (fun t a => t.union (single a)) empty = ⟨UInt8.ofNat n⟩ := by decide
  have hlt : s.bits.toNat < 64 := h
  simpa only [UInt8.ofNat_toNat] using hall s.bits.toNat hlt

lemma toList_ne_nil {s : Attributes} (h : s.Known) (hne : s.isEmpty = false) : s.toList ≠ [] := by
  intro hnil
  have hs := foldl_union_toList h
  rw [hnil, List.foldl_nil] at hs
  rw [← hs] at hne
  cases hne

end Attributes

namespace Look

lemma select_singleton (l : Look) (n : Nat) : l.select [n] = l.selectOne n := by
  simp [select]

/-- The numbers of a colour choose that colour and change nothing else. -/
lemma select_colorCodes (l : Look) (c : Color) :
    l.select (Sgr.colorCodes c) = { l with color := c } := by
  cases c with
  | default => rfl
  | rgb r g b => simp [Sgr.colorCodes, select]
  | indexed n =>
    have hn : UInt8.ofNat n.toNat = n := UInt8.ofNat_toNat
    rw [Sgr.colorCodes]
    split
    · next hlow =>
      have hlt : n.toNat < 8 := hlow
      rw [select_singleton, selectOne, if_neg (by omega), if_neg (by omega), if_pos (by omega),
        Nat.add_sub_cancel_left, hn]
    · next hlow =>
      have hge : ¬ n.toNat < 8 := hlow
      split
      · next hhigh =>
        have hlt : n.toNat < 16 := hhigh
        rw [select_singleton, selectOne, if_neg (by omega), if_neg (by omega), if_neg (by omega),
          if_pos (by omega), Nat.add_sub_cancel_left, hn]
      · rw [select, hn, select]

/-- The numbers of attributes turn these on and change nothing else. -/
lemma select_attributeCodes (l : Look) (as : List Attribute) :
    l.select (as.map Sgr.attributeCode) =
      { l with attributes := as.foldl (fun t a => t.union (.single a)) l.attributes } := by
  induction as generalizing l with
  | nil => rfl
  | cons a as ih =>
    have ha : l.select (Sgr.attributeCode a :: as.map Sgr.attributeCode) =
        { l with attributes := l.attributes.union (.single a) }.select
          (as.map Sgr.attributeCode) := by
      cases a <;> rfl
    rw [List.map_cons, ha, ih, List.foldl_cons]

end Look

namespace Screen

variable {shown : List (Char × Look)}

lemma receiveAll_attributes (color : Color) {target : Attributes} (h : target.Known) :
    (Screen.mk shown ⟨color, .empty⟩ .text).receiveAll (Sgr.attributes target) =
      ⟨shown, ⟨color, target⟩, .text⟩ := by
  rw [Sgr.attributes]
  split
  · next hempty =>
    rw [Attributes.eq_empty_of_isEmpty hempty]
    rfl
  · next hne =>
    have hcodes : target.toList.map Sgr.attributeCode ≠ [] := by
      rw [ne_eq, List.map_eq_nil_iff]
      exact Attributes.toList_ne_nil h (Bool.eq_false_iff.2 hne)
    rw [receiveAll_sequence hcodes, Look.select_attributeCodes, Attributes.foldl_union_toList h]

/-- A colour is left out if the terminal has it. -/
lemma receiveAll_color (old : Look) (target : Color) :
    (Screen.mk shown old .text).receiveAll
        (if old.color = target then [] else Sgr.color target) =
      ⟨shown, ⟨target, old.attributes⟩, .text⟩ := by
  split
  · next hsame =>
    rw [← hsame]
    rfl
  · have hcodes : Sgr.colorCodes target ≠ [] := by
      rw [Sgr.colorCodes.eq_def]
      repeat' split
      all_goals exact List.cons_ne_nil _ _
    rw [Sgr.color, receiveAll_sequence hcodes, Look.select_colorCodes]

/-- After what a pen writes to change its look the terminal has that look. -/
lemma receiveAll_take (pen : Pen) {target : Look} (h : target.attributes.Known) :
    (Screen.mk shown pen.look .text).receiveAll (pen.take target).2 = ⟨shown, target, .text⟩ := by
  rw [Pen.take]
  by_cases hsame : target.attributes = pen.look.attributes
  · simp only [if_pos hsame, List.nil_append]
    rw [receiveAll_color, ← hsame]
  · by_cases hempty : pen.look.attributes.isEmpty = true
    · have hlook : pen.look = ⟨pen.look.color, .empty⟩ := by
        rw [← Attributes.eq_empty_of_isEmpty hempty]
      simp only [if_neg hsame, if_pos hempty, receiveAll_append]
      rw [hlook, receiveAll_attributes _ h, receiveAll_color]
    · -- the terminal gives up its colour with the attributes, and is sent both again
      simp only [if_neg hsame, if_neg hempty, receiveAll_append, receiveAll_reset, Look.plain,
        receiveAll_attributes _ h]
      rw [receiveAll_color ⟨.default, target.attributes⟩]

end Screen

/-! ## Calls -/

namespace Palette

/-- The palette uses only attributes that a terminal knows. -/
def Known (p : Palette) : Prop :=
  ∀ tag, (p.look tag).attributes.Known

lemma known_plain : plain.Known :=
  fun _ => show Attributes.empty.Known by decide

end Palette

namespace Pen

/-- What can be done with a pen.  Each call may bring a palette of its own. -/
inductive Call where
  | write (palette : Palette) (span : Span)
  | writeAll (palette : Palette) (spans : List Span)
  | finish

namespace Call

/-- The texts hold no escape character, and the palette uses only attributes that a terminal
knows. -/
def Clean : Call → Prop
  | write palette span => '\x1b' ∉ span.text ∧ palette.Known
  | writeAll palette spans => (∀ span ∈ spans, '\x1b' ∉ span.text) ∧ palette.Known
  | finish => True

/-- What the call is to show: the texts of its spans in the looks that its palette gives them. -/
def shown : Call → List (Char × Look)
  | write palette span => span.text.map (·, palette.look span.tag)
  | writeAll palette spans => spans.flatMap fun span => span.text.map (·, palette.look span.tag)
  | finish => []

/-- The call ends with going back to the look that the terminal starts with. -/
def finishes : Call → Bool
  | write _ _ => false
  | writeAll _ _ | finish => true

/-- The call, with spans that are written together taken apart. -/
def parts : Call → List Call
  | writeAll palette spans => spans.map (write palette) ++ [finish]
  | call => [call]

/-- The call writes a span without text. -/
def IsIdle : Call → Prop
  | write _ span => span.text = []
  | _ => False

end Call

/-- The pen after a call, and what is written. -/
def perform (pen : Pen) : Call → Pen × List Char
  | .write palette span => pen.write palette span
  | .writeAll palette spans => pen.writeAll palette spans
  | .finish => pen.finish

/-- The pen after calls, and all that is written. -/
def run (pen : Pen) : List Call → Pen × List Char
  | [] => (pen, [])
  | call :: calls =>
    (((pen.perform call).1.run calls).1, (pen.perform call).2 ++ ((pen.perform call).1.run calls).2)

lemma run_append (pen : Pen) (cs ds : List Call) :
    pen.run (cs ++ ds) =
      (((pen.run cs).1.run ds).1, (pen.run cs).2 ++ ((pen.run cs).1.run ds).2) := by
  induction cs generalizing pen with
  | nil => rfl
  | cons call cs ih => simp only [List.cons_append, run, ih, List.append_assoc]

lemma run_singleton (pen : Pen) (call : Call) : pen.run [call] = pen.perform call := by
  simp [run]

/-- Spans that are written together are written one by one. -/
lemma run_parts (pen : Pen) (call : Call) : pen.run call.parts = pen.perform call := by
  cases call with
  | write palette span => exact pen.run_singleton _
  | finish => exact pen.run_singleton _
  | writeAll palette spans =>
    rw [Call.parts, perform]
    induction spans generalizing pen with
    | nil => exact pen.run_singleton _
    | cons span spans ih =>
      rw [List.map_cons, List.cons_append, run, ih]
      rfl

lemma run_flatMap_parts (pen : Pen) (calls : List Call) :
    pen.run (calls.flatMap Call.parts) = pen.run calls := by
  induction calls generalizing pen with
  | nil => rfl
  | cons call calls ih => rw [List.flatMap_cons, run_append, run_parts, ih, run]

/-! ## Spans of one look -/

/-- A span that has the look of the pen is written as it is. -/
lemma write_of_look_eq {pen : Pen} {palette : Palette} {span : Span}
    (h : palette.look span.tag = pen.look) : pen.write palette span = (pen, span.text) := by
  rw [write]
  split
  · next hnil => rw [List.isEmpty_iff.1 hnil]
  · simp [take, h]

/-- After a span with text the pen has the look of the span, and the text is the last that was
written. -/
lemma write_of_ne_nil (pen : Pen) (palette : Palette) {span : Span} (h : span.text ≠ []) :
    (pen.write palette span).1.look = palette.look span.tag ∧
      ∃ escapes, (pen.write palette span).2 = escapes ++ span.text := by
  rw [write, if_neg (by simpa using h)]
  exact ⟨rfl, _, rfl⟩

lemma look_writeAll (pen : Pen) (palette : Palette) (spans : List Span) :
    (pen.writeAll palette spans).1.look = .plain := by
  induction spans generalizing pen with
  | nil => rfl
  | cons span spans ih => exact ih _

lemma look_of_finishes {pen : Pen} {call : Call} (h : call.finishes = true) :
    (pen.perform call).1.look = .plain := by
  cases call with
  | write palette span => cases h
  | writeAll palette spans => exact pen.look_writeAll palette spans
  | finish => rfl

lemma run_of_isIdle {calls : List Call} (h : ∀ call ∈ calls, call.IsIdle) (pen : Pen) :
    pen.run calls = (pen, []) := by
  induction calls with
  | nil => rfl
  | cons call calls ih =>
    have hcall : pen.perform call = (pen, []) := by
      have hidle := h call List.mem_cons_self
      cases call with
      | write palette span =>
        rw [Call.IsIdle] at hidle
        rw [perform, write, hidle]
        rfl
      | writeAll palette spans => exact hidle.elim
      | finish => exact hidle.elim
    rw [run, hcall, ih fun c hc => h c (List.mem_cons_of_mem _ hc)]
    rfl

end Pen

/-! ## Calls and the terminal -/

namespace Screen

variable {shown : List (Char × Look)}

lemma receiveAll_write (pen : Pen) {palette : Palette} {span : Span}
    (htext : '\x1b' ∉ span.text) (hknown : palette.Known) :
    (Screen.mk shown pen.look .text).receiveAll (pen.write palette span).2 =
      ⟨shown ++ span.text.map (·, palette.look span.tag), (pen.write palette span).1.look,
        .text⟩ := by
  rw [Pen.write]
  split
  · next hnil =>
    rw [List.isEmpty_iff.1 hnil, List.map_nil, List.append_nil]
    rfl
  · rw [receiveAll_append, receiveAll_take pen (hknown span.tag), receiveAll_text htext]
    rfl

lemma receiveAll_finish (pen : Pen) :
    (Screen.mk shown pen.look .text).receiveAll pen.finish.2 = ⟨shown, .plain, .text⟩ := by
  rw [Pen.finish]
  split
  · next hplain =>
    simp only [Look.isPlain, Bool.and_eq_true, beq_iff_eq] at hplain
    rw [Look.plain, ← hplain.1, ← Attributes.eq_empty_of_isEmpty hplain.2]
    rfl
  · exact receiveAll_reset

lemma receiveAll_writeAll (pen : Pen) {palette : Palette} {spans : List Span}
    (htext : ∀ span ∈ spans, '\x1b' ∉ span.text) (hknown : palette.Known) :
    (Screen.mk shown pen.look .text).receiveAll (pen.writeAll palette spans).2 =
      ⟨shown ++ spans.flatMap fun span => span.text.map (·, palette.look span.tag), .plain,
        .text⟩ := by
  induction spans generalizing pen shown with
  | nil =>
    rw [List.flatMap_nil, List.append_nil]
    exact receiveAll_finish pen
  | cons span spans ih =>
    rw [Pen.writeAll, receiveAll_append,
      receiveAll_write pen (htext span List.mem_cons_self) hknown,
      ih _ fun s hs => htext s (List.mem_cons_of_mem _ hs), List.flatMap_cons, List.append_assoc]

/-- After a call the terminal shows what the call is to show, and has the look of the pen. -/
lemma receiveAll_perform (pen : Pen) {call : Pen.Call} (h : call.Clean) :
    (Screen.mk shown pen.look .text).receiveAll (pen.perform call).2 =
      ⟨shown ++ call.shown, (pen.perform call).1.look, .text⟩ := by
  cases call with
  | write palette span => exact receiveAll_write pen h.1 h.2
  | writeAll palette spans =>
    rw [Pen.perform, pen.look_writeAll]
    exact receiveAll_writeAll pen h.1 h.2
  | finish =>
    rw [Pen.Call.shown, List.append_nil]
    exact receiveAll_finish pen

/-- The look of the pen is the look of the terminal after all calls. -/
lemma receiveAll_run (pen : Pen) {calls : List Pen.Call} (h : ∀ call ∈ calls, call.Clean) :
    (Screen.mk shown pen.look .text).receiveAll (pen.run calls).2 =
      ⟨shown ++ calls.flatMap Pen.Call.shown, (pen.run calls).1.look, .text⟩ := by
  induction calls generalizing pen shown with
  | nil =>
    rw [List.flatMap_nil, List.append_nil]
    rfl
  | cons call calls ih =>
    rw [Pen.run, receiveAll_append, receiveAll_perform pen (h call List.mem_cons_self),
      ih _ fun c hc => h c (List.mem_cons_of_mem _ hc), List.flatMap_cons, List.append_assoc]

end Screen

namespace Pen

/-- **What a terminal shows.**  Calls are made on a pen in any order, with palettes that may differ
from call to call.  A terminal that receives what is written shows the texts of the spans, each
character in the look that the palette of its call gives to its tag.  Whenever the pen has finished,
the terminal is as it was at the start.  And if a span comes after a span with text and has the same
look, with nothing but spans without text between them, its text follows immediately. -/
theorem run_shown (calls : List Call) (hclean : ∀ call ∈ calls, call.Clean) :
    (Screen.blank.receiveAll (fresh.run calls).2).shown = calls.flatMap Call.shown ∧
    (∀ before call after, calls = before ++ call :: after → call.finishes = true →
      Screen.blank.receiveAll (fresh.run (before ++ [call])).2 =
        ⟨(before ++ [call]).flatMap Call.shown, .plain, .text⟩) ∧
    ∀ before p s gap q t after,
      calls.flatMap Call.parts = before ++ .write p s :: (gap ++ .write q t :: after) →
      s.text ≠ [] → (∀ call ∈ gap, call.IsIdle) → p.look s.tag = q.look t.tag →
      ∃ out, (fresh.run (before ++ [.write p s])).2 = out ++ s.text ∧
        (fresh.run calls).2 = out ++ s.text ++ t.text ++
          ((fresh.run (before ++ [.write p s])).1.run after).2 := by
  have hblank : Screen.blank = ⟨[], fresh.look, .text⟩ := rfl
  refine ⟨?_, ?_, ?_⟩
  · rw [hblank, Screen.receiveAll_run fresh hclean, List.nil_append]
  · rintro before call after rfl hfinishes
    have hbefore : ∀ c ∈ before ++ [call], c.Clean := by
      intro c hc
      refine hclean c ?_
      rw [List.append_cons]
      exact List.mem_append_left _ hc
    have hlook : (fresh.run (before ++ [call])).1.look = .plain := by
      rw [run_append, run_singleton]
      exact look_of_finishes hfinishes
    rw [hblank, Screen.receiveAll_run fresh hbefore, hlook, List.nil_append]
  · intro before p s gap q t after hparts hs hgap hsame
    obtain ⟨hlook, escapes, hescapes⟩ := write_of_ne_nil (fresh.run before).1 p hs
    have hfirst : fresh.run (before ++ [.write p s]) =
        (((fresh.run before).1.write p s).1, (fresh.run before).2 ++ escapes ++ s.text) := by
      rw [run_append, run_singleton, perform, hescapes, List.append_assoc]
    refine ⟨(fresh.run before).2 ++ escapes, by rw [hfirst], ?_⟩
    rw [← run_flatMap_parts, hparts, List.append_cons, run_append, hfirst, run_append,
      run_of_isIdle hgap, run, perform, write_of_look_eq (hsame.symm.trans hlook.symm),
      List.nil_append, List.append_assoc _ t.text]

/-- A keyword is written in bold blue, then a span without text, then a number in the same look by
another palette, and then a comment, after which the pen finishes. -/
theorem run_shown_two_palettes :
    (∀ call ∈ [Call.write .default ⟨.keyword, ['i', 'f']⟩, .write .plain ⟨.comment, []⟩,
        .write (Palette.plain.set .digits ⟨.indexed 4, .single .bold⟩) ⟨.digits, ['1']⟩,
        .writeAll .default [⟨.comment, ['%']⟩]], call.Clean) ∧
      Screen.blank.receiveAll (fresh.run
        [.write .default ⟨.keyword, ['i', 'f']⟩, .write .plain ⟨.comment, []⟩,
          .write (Palette.plain.set .digits ⟨.indexed 4, .single .bold⟩) ⟨.digits, ['1']⟩,
          .writeAll .default [⟨.comment, ['%']⟩]]).2 =
        ⟨[('i', ⟨.indexed 4, .single .bold⟩), ('f', ⟨.indexed 4, .single .bold⟩),
          ('1', ⟨.indexed 4, .single .bold⟩), ('%', ⟨.indexed 8, .single .italic⟩)],
          .plain, .text⟩ := by
  have hdefault : Palette.default.Known := by
    intro tag
    cases tag <;> decide
  have hblue : (Palette.plain.set .digits ⟨.indexed 4, .single .bold⟩).Known := by
    intro tag
    cases tag <;> decide
  have hclean : ∀ call ∈ [Call.write .default ⟨.keyword, ['i', 'f']⟩, .write .plain ⟨.comment, []⟩,
      .write (Palette.plain.set .digits ⟨.indexed 4, .single .bold⟩) ⟨.digits, ['1']⟩,
      .writeAll .default [⟨.comment, ['%']⟩]], call.Clean := by
    simp only [List.forall_mem_cons, Call.Clean]
    exact ⟨⟨by decide, hdefault⟩, ⟨by decide, Palette.known_plain⟩, ⟨by decide, hblue⟩,
      ⟨by decide, hdefault⟩, by simp⟩
  refine ⟨hclean, ?_⟩
  exact (run_shown _ hclean).2.1
    [.write .default ⟨.keyword, ['i', 'f']⟩, .write .plain ⟨.comment, []⟩,
      .write (Palette.plain.set .digits ⟨.indexed 4, .single .bold⟩) ⟨.digits, ['1']⟩] _ [] rfl rfl

end Pen
end Terminal
end MetaPostEditor
