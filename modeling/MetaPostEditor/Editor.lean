import MetaPostEditor.History
import MetaPostEditor.Indentation
import MetaPostEditor.Options
import MetaPostEditor.Position
import MetaPostEditor.Widening

/-!
# The editor

An editor holds a styled text, the options, the history and the caret.  Its text changes by edits,
each of which also brings the tags up to date:

* Backspace over white space that has only white space before it on its line goes back to the
  nearest shallower indentation.
* Enter continues the indentation of the line it is pressed on.
* Any other edit is widened to whole words, and the widened piece is scanned again.  White space at
  an end of the inserted text may have cut a word in two, so the word beside it is scanned again
  too.

A scan of a piece starts in the state that the tags before the piece tell.  An edit is made as a
whole or not at all.
-/

namespace MetaPostEditor

/-- The other side of a quote: a string ends or begins. -/
def Scanner.State.acrossQuote : Scanner.State → Scanner.State
  | .quoted => .normal
  | .normal => .quoted
  | s => s

/-- The state in which a scan that starts at `start` continues the text before it.  The quotes that
delimit strings are tagged `normal`, so they are passed over, and an odd number of them changes the
side of the string. -/
def Buffer.stateAt (b : Buffer) (start : Nat) : Scanner.State :=
  let before := (b.cells.take start).reverse
  let quotes := before.takeWhile fun cell => cell.char == '"' && cell.tag == .normal
  let state := Scanner.State.after ((before.drop quotes.length).head?.map (·.tag))
  if quotes.length % 2 = 0 then state else state.acrossQuote

/-- A buffer in the course of an edit, with the changes made so far. -/
structure Draft where
  buffer : Buffer
  changes : List Change
deriving DecidableEq

namespace Draft

/-- Puts tokens in the place of a range. -/
def replace (d : Draft) (start stop : Nat) (tokens : List Token) : Except EditError Draft := do
  let (buffer, change) ← d.buffer.replace start stop tokens
  return ⟨buffer, d.changes ++ [change]⟩

/-- Removes a range. -/
def remove (d : Draft) (start stop : Nat) : Except EditError Draft := do
  let (buffer, change) ← d.buffer.remove start stop
  return ⟨buffer, d.changes ++ [change]⟩

/-- Scans `text` as it would stand at `start`. -/
def scanAt (d : Draft) (comments : Bool) (start : Nat) (text : List Char) : List Token :=
  tokenize comments (d.buffer.stateAt start) text

/-- Puts a text, which may be empty, at a place and scans the words that touch it again.  Returns
the place behind the text. -/
def insert (d : Draft) (comments : Bool) (position : Nat) (inserted : List Char) :
    Except EditError (Draft × Nat) := do
  let w := widen d.buffer.text position inserted comments
  let text := w.splice inserted
  let d' ← d.replace w.start w.stop (d.scanAt comments w.start text)
  return (d', w.start + text.length - w.right.length)

/-- Scans the words that touch a place again. -/
def refresh (d : Draft) (comments : Bool) (position : Nat) : Except EditError Draft := do
  let (d', _) ← d.insert comments position []
  return d'

/-- Puts a text at a place.  Returns the new caret. -/
def insertText (d : Draft) (comments : Bool) (position : Nat) (inserted : List Char) :
    Except EditError (Draft × Nat) := do
  let (d₁, caret) ← d.insert comments position inserted
  let d₂ ← if Text.startsBlank inserted then d₁.refresh comments position else pure d₁
  let d₃ ←
    if Text.endsBlank inserted then d₂.refresh comments (position + inserted.length) else pure d₂
  return (d₃, caret)

/-- Breaks the line at a place and indents the new one as the old one is.  Returns the new caret. -/
def newline (d : Draft) (comments : Bool) (position : Nat) : Except EditError (Draft × Nat) := do
  let text := '\n' :: Indentation.before d.buffer.text position
  let d₁ ← d.replace position position (d.scanAt comments position text)
  let caret := position + text.length
  let d₂ ← d₁.refresh comments position
  let d₃ ← d₂.refresh comments caret
  return (d₃, caret)

/-- Removes a range, and goes back to a shallower indentation if it is part of one.  Returns the new
caret. -/
def backspace (d : Draft) (comments outdent : Bool) (start stop : Nat) :
    Except EditError (Draft × Nat) := do
  let blank := (d.buffer.cellsIn start stop).all fun cell => Unicode.isWhiteSpace cell.char
  let d₁ ← d.remove start stop
  let text := d₁.buffer.text
  if outdent && blank && !(Indentation.before text start).isEmpty
      && Indentation.blankBefore text start then
    let lineStart := Indentation.lineStart text start
    let indent := Indentation.shallowerBefore text start
    let d₂ ← d₁.replace lineStart start (d₁.scanAt comments lineStart indent)
    return (d₂, lineStart + indent.length)
  else
    d₁.insert comments start []

/-- Makes an edit that lies in the text.  Returns the new caret. -/
def edit (d : Draft) (o : Options) (e : Edit) : Except EditError (Draft × Nat) := do
  let stop := e.position + e.deleted
  if e.isDeletion then
    d.backspace o.comments o.outdent e.position stop
  else
    let d₁ ← if e.deleted > 0 then d.remove e.position stop else pure d
    if e.isNewline && o.autoindent then
      d₁.newline o.comments e.position
    else
      d₁.insertText o.comments e.position e.inserted

end Draft

/-- A styled text under edit. -/
structure Editor where
  buffer : Buffer
  options : Options
  history : History
  caret : Nat
deriving DecidableEq

namespace Editor

/-- An editor without text. -/
def empty (options : Options) : Editor :=
  ⟨Buffer.empty, options, History.empty options.undolevels.toNat, 0⟩

/-- Scans the whole text again. -/
def restyleAll (ed : Editor) : Editor :=
  let b := ed.buffer
  match b.restyle 0 b.length (tokenize ed.options.comments .normal b.text) with
  | .ok (b', _) => { ed with buffer := b' }
  | .error _ => ed

/-- Takes up a new text, with no history. -/
def load (ed : Editor) (text : List Char) : Editor :=
  let fresh := { ed with buffer := Buffer.ofText text }.restyleAll
  { fresh with
    buffer := fresh.buffer.markSaved
    history := History.empty ed.options.undolevels.toNat
    caret := 0 }

/-- An editor with the default options that has taken up a text. -/
def ofText (text : List Char) : Editor :=
  (empty Options.default).load text

/-- Notes that the text has been saved. -/
def markSaved (ed : Editor) : Editor :=
  { ed with buffer := ed.buffer.markSaved }

/-- The text. -/
def text (ed : Editor) : List Char :=
  ed.buffer.text

/-- Line and column of the caret. -/
def caretPosition (ed : Editor) : Position :=
  (Position.ofOffset? ed.text ed.caret).getD Position.zero

/-- Carries out the directives in a text, as far as they are accepted.  Returns what is to be shown,
or the refusal. -/
def set (ed : Editor) (args : String) : Except OptionError (Option String) × Editor :=
  let (shown, options) := ed.options.set args
  let ed₁ := { ed with options }
  let ed₂ :=
    if options.undolevels ≠ ed.options.undolevels then
      { ed₁ with history := ed₁.history.setLimit options.undolevels.toNat }
    else ed₁
  let ed₃ := if options.comments ≠ ed.options.comments then ed₂.restyleAll else ed₂
  (shown, ed₃)

/-- Makes an edit that lies in the text and puts it into the history.  Returns the new caret. -/
def make (ed : Editor) (e : Edit) : Except EditError (Nat × Editor) := do
  let (d, caret) ← (Draft.mk ed.buffer []).edit ed.options e
  let begun := ed.history.begin ed.caret ed.options.comments
  let history := (d.changes.foldl History.record begun).commit caret
  return (caret, { ed with buffer := d.buffer, history, caret })

/-- Makes an edit if it lies in the text. -/
def apply (ed : Editor) (e : Edit) : Except EditError (Nat × Editor) :=
  if e.position + e.deleted > ed.buffer.length then
    throw (.outOfRange e.position e.deleted ed.buffer.length)
  else ed.make e

/-- Makes an edit whose place and length are given as words, if their sum is a word and lies in the
text. -/
def applyWords (ed : Editor) (position deleted : UInt64) (inserted : List Char) :
    Except EditError (Nat × Editor) :=
  match (checkedAdd? position deleted).filter fun stop => stop.toNat ≤ ed.buffer.length with
  | none => throw (.outOfRange position.toNat deleted.toNat ed.buffer.length)
  | some _ => ed.make ⟨position.toNat, deleted.toNat, inserted⟩

/-- Puts the caret where an undo or a redo says.  Tags that were made while comments were shown
otherwise than now are made anew. -/
def restore (ed : Editor) (r : Restored) : Editor :=
  let ed' := if r.comments ≠ ed.options.comments then ed.restyleAll else ed
  { ed' with caret := min r.caret ed'.buffer.length }

/-- Follows the history in one direction.  Returns the new caret, if there was anything to do. -/
def travel (ed : Editor)
    (step : History → Buffer → Except EditError (Option Restored) × History × Buffer) :
    Except EditError (Option Nat) × Editor :=
  let (outcome, history, buffer) := step ed.history ed.buffer
  let ed' := { ed with history, buffer }
  match outcome with
  | .error e => (.error e, ed')
  | .ok none => (.ok none, ed')
  | .ok (some r) =>
    let ed'' := ed'.restore r
    (.ok (some ed''.caret), ed'')

/-- Takes back the newest edit. -/
def undo (ed : Editor) : Except EditError (Option Nat) × Editor :=
  ed.travel History.undo

/-- Makes the edit again that was taken back last. -/
def redo (ed : Editor) : Except EditError (Option Nat) × Editor :=
  ed.travel History.redo

end Editor
end MetaPostEditor
