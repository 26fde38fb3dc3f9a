import MetaPostEditor.Proofs.Cutting
import MetaPostEditor.Proofs.Numerals
import MetaPostEditor.Proofs.PlainOutput

/-!
# Reading listed spans

A listing of spans can be read back, whatever the texts hold: line ends, tabs, or what looks like an
escape or like a line of another listing.  This file reads it line by line (`SpanDump.read?`) and
each text from left to right, with a cursor that remembers how far an escape has been read
(`SpanDump.unescape`).

Which characters are escaped depends on large tables, and at the start of a text on other ones than
further on.  The reader knows nothing of the tables: a character may be written in several ways, and
each of them is read as that character (`SpanDump.Written`).

The main result is `SpanDump.render_lossless`.
-/

namespace MetaPostEditor
namespace SpanDump

/-! ## The reader -/

/-- How far an escape has been read. -/
inductive Cursor where
  /-- No escape is open. -/
  | outside
  /-- The backslash has been read. -/
  | backslash
  /-- The backslash and the `u` have been read. -/
  | unbraced
  /-- Behind the brace, digits of this value have been read. -/
  | number (value : Nat)

/-- The character for which a letter stands behind a backslash. -/
def ofLetter? : Char → Option Char
  | '0' => some '\x00'
  | 't' => some '\t'
  | 'r' => some '\r'
  | 'n' => some '\n'
  | '\x27' => some '\x27'
  | '"' => some '"'
  | '\\' => some '\\'
  | _ => none

/-- Reads a text, given how far an escape has been read. -/
def unescape : Cursor → List Char → Option (List Char)
  | .outside, [] => some []
  | _, [] => none
  | .outside, c :: rest =>
    if c = '\\' then unescape .backslash rest else (unescape .outside rest).map (c :: ·)
  | .backslash, c :: rest =>
    if c = 'u' then unescape .unbraced rest
    else (ofLetter? c).bind fun d => (unescape .outside rest).map (d :: ·)
  | .unbraced, c :: rest => if c = '\x7b' then unescape (.number 0) rest else none
  | .number value, c :: rest =>
    if c = '\x7d' then (unescape .outside rest).map (Char.ofNat value :: ·)
    else (Numeral.digit? 16 c).bind fun d => unescape (.number (value * 16 + d)) rest

/-- Reads the line of one span, without its newline. -/
def readLine? (line : List Char) : Option Span := do
  let (name, text) ← Text.cut? '\t' line
  return ⟨← Tag.ofName? (String.ofList name), ← unescape .outside text⟩

/-- Reads lines.  Behind the last newline there must be nothing. -/
def readLines? : List (List Char) → Option (List Span)
  | [] => none
  | [rest] => if rest = [] then some [] else none
  | line :: next :: rest => do
    return (← readLine? line) :: (← readLines? (next :: rest))

/-- Reads a listing. -/
def read? (text : List Char) : Option (List Span) :=
  readLines? (Text.lines text)

/-! ## One character -/

/-- The ways in which a character may be written. -/
inductive Written (c : Char) : List Char → Prop
  | plain (hslash : c ≠ '\\') (hline : c ≠ '\n') : Written c [c]
  | letter {d : Char} (h : ofLetter? d = some c) : Written c ['\\', d]
  | number : Written c (numericEscape c)

lemma written_escape (c : Char) : Written c (escape c) := by
  unfold escape
  split
  case h_8 hline _ _ hslash =>
    split
    · exact .number
    · exact .plain hslash hline
  all_goals exact .letter rfl

lemma written_escapeFirst (c : Char) : Written c (escapeFirst c) := by
  rw [escapeFirst]
  split
  · exact .number
  · exact written_escape c

/-- Digits that are followed by a brace are read as a number. -/
lemma unescape_digits {value n : Nat} {ds : List Char}
    (h : Numeral.digits? 16 value ds = some n) (rest : List Char) :
    unescape (.number value) (ds ++ '\x7d' :: rest) =
      (unescape .outside rest).map (Char.ofNat n :: ·) := by
  induction ds generalizing value with
  | nil =>
    cases h
    rw [List.nil_append, unescape, if_pos rfl]
  | cons c ds ih =>
    rw [Numeral.digits?, Option.bind_eq_bind, Option.bind_eq_some_iff] at h
    obtain ⟨d, hd, hds⟩ := h
    have hbrace : c ≠ '\x7d' := by
      rintro rfl
      cases hd
    rw [List.cons_append, unescape, if_neg hbrace, hd, Option.bind_some, ih hds]

/-- In whatever way a character is written, it is read. -/
lemma Written.unescape {c : Char} {e : List Char} (h : Written c e) (rest : List Char) :
    unescape .outside (e ++ rest) = (unescape .outside rest).map (c :: ·) := by
  cases h with
  | plain hslash _ => rw [List.singleton_append, SpanDump.unescape, if_neg hslash]
  | @letter d hd =>
    have hletter : d ≠ 'u' := by
      rintro rfl
      cases hd
    rw [List.cons_append, List.singleton_append, SpanDump.unescape, if_pos rfl, SpanDump.unescape,
      if_neg hletter, hd, Option.bind_some]
  | number =>
    have hdigits := Numeral.digits?_toDigits (by decide) (le_refl 16) c.toNat
    have hopen : numericEscape c ++ rest =
        '\\' :: 'u' :: '\x7b' :: (Nat.toDigits 16 c.toNat ++ '\x7d' :: rest) := by
      simp [numericEscape]
    rw [hopen, SpanDump.unescape, if_pos rfl, SpanDump.unescape, if_pos rfl, SpanDump.unescape,
      if_pos rfl, unescape_digits hdigits, Char.ofNat_toNat]

lemma Written.newline_notMem {c : Char} {e : List Char} (h : Written c e) : '\n' ∉ e := by
  cases h with
  | plain _ hline => simpa using hline.symm
  | @letter d hd =>
    have hletter : d ≠ '\n' := by
      rintro rfl
      cases hd
    simp [hletter.symm]
  | number =>
    intro hmem
    have hdigits := Numeral.digits?_toDigits (by decide) (le_refl 16) c.toNat
    have hdigit : '\n' ∈ Nat.toDigits 16 c.toNat := by simpa [numericEscape] using hmem
    obtain ⟨d, hd⟩ := Numeral.exists_digit?_of_mem hdigits hdigit
    cases hd

/-! ## A text -/

lemma unescape_flatMap (text : List Char) :
    unescape .outside (text.flatMap escape) = some text := by
  induction text with
  | nil => rfl
  | cons c text ih => rw [List.flatMap_cons, (written_escape c).unescape, ih, Option.map_some]

/-- A text is read as it was before it was escaped. -/
lemma unescape_escapeText (text : List Char) :
    unescape .outside (escapeText text) = some text := by
  cases text with
  | nil => rfl
  | cons c text =>
    rw [escapeText, (written_escapeFirst c).unescape, unescape_flatMap, Option.map_some]

lemma newline_notMem_escapeText (text : List Char) : '\n' ∉ escapeText text := by
  cases text with
  | nil => exact List.not_mem_nil
  | cons c text =>
    rw [escapeText, List.mem_append, List.mem_flatMap, not_or]
    refine ⟨(written_escapeFirst c).newline_notMem, ?_⟩
    rintro ⟨d, -, hd⟩
    exact (written_escape d).newline_notMem hd

/-! ## Lines -/

lemma ofName?_name (tag : Tag) : Tag.ofName? tag.name = some tag := by
  cases tag <;> rfl

lemma tab_notMem_name (tag : Tag) : '\t' ∉ tag.name.toList ∧ '\n' ∉ tag.name.toList := by
  cases tag <;> decide

/-- The line of one span, without its newline. -/
def body (span : Span) : List Char :=
  span.tag.name.toList ++ '\t' :: escapeText span.text

lemma line_eq (span : Span) : line span = body span ++ ['\n'] := by
  simp [line, body]

lemma readLine?_body (span : Span) : readLine? (body span) = some span := by
  rw [readLine?, body, Text.cut?_append (tab_notMem_name span.tag).1]
  simp [ofName?_name, unescape_escapeText]

lemma newline_notMem_body (span : Span) : '\n' ∉ body span := by
  rw [body, List.mem_append, List.mem_cons, not_or, not_or]
  exact ⟨(tab_notMem_name span.tag).2, by decide, newline_notMem_escapeText span.text⟩

/-- A line end stands nowhere but behind a span. -/
lemma lines_render (spans : List Span) : Text.lines (render spans) = spans.map body ++ [[]] := by
  induction spans with
  | nil => rfl
  | cons span spans ih =>
    have hother := Text.beq_eq_false_of_notMem (newline_notMem_body span)
    rw [render, List.flatMap_cons, line_eq, List.append_assoc, List.singleton_append, Text.lines,
      Text.split_append_cons hother rfl, ← render, ← Text.lines, ih, List.map_cons,
      List.cons_append]

lemma readLines?_map (spans : List Span) :
    readLines? (spans.map body ++ [[]]) = some spans := by
  induction spans with
  | nil => rfl
  | cons span spans ih =>
    obtain ⟨next, rest, hnext⟩ :=
      List.exists_cons_of_ne_nil (List.concat_ne_nil [] (spans.map body))
    rw [hnext] at ih
    rw [List.map_cons, List.cons_append, hnext, readLines?, readLine?_body, ih]
    rfl

/-- A listing is read as the spans that it was made of. -/
lemma read?_render (spans : List Span) : read? (render spans) = some spans := by
  rw [read?, lines_render, readLines?_map]

/-- The spans that are read from the listing of a buffer divide its text and its tags. -/
lemma read?_render_allSpans (b : Buffer) :
    ∃ ss, read? (render b.allSpans) = some ss ∧ Span.Divide ss b.text b.tags :=
  ⟨b.allSpans, read?_render b.allSpans, Buffer.divide_spansOf b.cells⟩

open CommandLine in
/-- **Listings of spans lose nothing.**  Every list of spans is read back from its listing, so no
two lists have the same listing.  From the listing of a buffer all its text and all its tags are
read back.  So they are from what the program writes if it is asked for the spans of a text and
succeeds: the text as it was given, with the tags of a scan. -/
theorem render_lossless :
    (∀ spans, read? (render spans) = some spans) ∧
    Function.Injective render ∧
    (∀ b : Buffer, ∃ ss, read? (render b.allSpans) = some ss ∧ Span.Divide ss b.text b.tags) ∧
    ∀ (r : Request) (text : String), r.format = .spans → (r.run (.ok text.toUTF8)).code = 0 →
      ∃ ed ss, (setOptions (Editor.empty Options.default) r.sets).2 = .ok ed ∧
        read? (r.run (.ok text.toUTF8)).stdout.toList = some ss ∧
        Span.Divide ss text.toList
          ((classify ed.options.comments .normal text.toList).map (·.tag)) := by
  refine ⟨read?_render, ?_, read?_render_allSpans, fun r text hformat hcode => ?_⟩
  · intro spans spans' h
    have hread := read?_render spans
    rw [h, read?_render] at hread
    exact (Option.some.inj hread).symm
  · obtain ⟨ed, palette, hset, hlooks⟩ := Request.exists_ok_of_code hcode
    obtain ⟨ed', caret, hcells, hprocess⟩ := Request.process_of_ok hset hlooks text
    obtain ⟨ss, hread, hdivide⟩ := read?_render_allSpans ed'.buffer
    refine ⟨ed, ss, hset, ?_, ?_⟩
    · rw [Request.stdout_run hprocess, String.toList_ofList, Request.write, hformat]
      exact hread
    · rw [Buffer.text_eq, Buffer.tags, hcells, textOf_classify] at hdivide
      exact hdivide

open CommandLine in
/-- A text that looks like an escape and like a line of a listing, with an accent at its start. -/
theorem render_lossless_looks_escaped :
    (Request.mk none ["comments"] true .spans []).format = .spans ∧
      ((Request.mk none ["comments"] true .spans []).run
        (.ok "\u0301\\u\x7b301\x7d\nQUOTED\t%\"".toUTF8)).code = 0 ∧
      ∃ ss, read? ((Request.mk none ["comments"] true .spans []).run
          (.ok "\u0301\\u\x7b301\x7d\nQUOTED\t%\"".toUTF8)).stdout.toList = some ss ∧
        ss.flatMap (·.text) = "\u0301\\u\x7b301\x7d\nQUOTED\t%\"".toList := by
  have hcode : ((Request.mk none ["comments"] true .spans []).run
      (.ok "\u0301\\u\x7b301\x7d\nQUOTED\t%\"".toUTF8)).code = 0 := by
    have hset : (setOptions (Editor.empty Options.default) ["comments"]).2 =
        .ok (Editor.empty { Options.default with comments := true }) := by decide
    obtain ⟨ed', caret, -, hprocess⟩ :=
      Request.process_of_ok (r := ⟨none, ["comments"], true, .spans, []⟩) hset rfl _
    exact (Request.code_run_eq_zero_iff _ _).2 ⟨_, hprocess⟩
  obtain ⟨ed, ss, -, hread, hdivide⟩ := render_lossless.2.2.2 _ _ rfl hcode
  exact ⟨rfl, hcode, ss, hread, hdivide.text_eq⟩

end SpanDump
end MetaPostEditor
