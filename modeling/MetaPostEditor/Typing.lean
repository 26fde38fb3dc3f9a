import MetaPostEditor.Editor

/-!
# Pasting and typing

A text is entered at the caret in one of two ways.  Pasting inserts it as a whole.  Typing enters it
key by key as a person would: Enter for each line break, and where the editor has indented a line
otherwise than the text wants it, Backspace until what is there can be completed.  Typing must
produce the text exactly, and fails if it does not.
-/

namespace MetaPostEditor

/-- Why typing fails. -/
inductive TypingError where
  /-- The editor refused a key. -/
  | refused (e : EditError)
  /-- Backspace was pressed where nothing is left to remove. -/
  | nothingToRemove
  /-- The text that came out is not the text that was typed. -/
  | diverged
deriving DecidableEq

/-- The text that reports the failure. -/
def TypingError.message : TypingError → String
  | refused e => e.message
  | nothingToRemove => "backspace at start of buffer"
  | diverged => "typed replay diverged from the input"

/-- How many keys were pressed. -/
structure KeyCount where
  chars : Nat
  enters : Nat
  backspaces : Nat
deriving DecidableEq

/-- An editor at which someone types. -/
structure Typist where
  editor : Editor
  keys : KeyCount
deriving DecidableEq

/-- An action at the keyboard.  What was typed before a failure stays. -/
abbrev Keyboard := EStateM TypingError Typist

namespace Keyboard

/-- Makes an edit. -/
def press (e : Edit) : Keyboard Unit := fun t =>
  match t.editor.apply e with
  | .ok (_, editor) => .ok () { t with editor }
  | .error err => .error (.refused err) t

/-- Counts a key. -/
def count (f : KeyCount → KeyCount) : Keyboard Unit :=
  modify fun t => { t with keys := f t.keys }

/-- The key of a character. -/
def char (c : Char) : Keyboard Unit := do
  press (.insert (← get).editor.caret [c])
  count fun k => { k with chars := k.chars + 1 }

/-- The keys of several characters. -/
def chars : List Char → Keyboard Unit
  | [] => pure ()
  | c :: rest => do
    char c
    chars rest

/-- The Enter key. -/
def enter : Keyboard Unit := do
  press (.insert (← get).editor.caret ['\n'])
  count fun k => { k with enters := k.enters + 1 }

/-- The Backspace key. -/
def backspace : Keyboard Unit := do
  let caret := (← get).editor.caret
  if caret = 0 then
    throw .nothingToRemove
  press (.delete (caret - 1) 1)
  count fun k => { k with backspaces := k.backspaces + 1 }

/-- Removes indentation before the caret until the rest of `target` can be typed behind it, and
types that.  Each Backspace moves the caret to the left, so as many of them as there are characters
before the caret are enough. -/
def matchIndent (target : List Char) (fuel : Nat) : Keyboard Unit := do
  let ed := (← get).editor
  match (Indentation.before ed.text ed.caret).isPrefixOf? target with
  | some missing => chars missing
  | none =>
    match fuel with
    | 0 => throw .nothingToRemove
    | fuel + 1 =>
      backspace
      matchIndent target fuel

/-- Types a line: first its indentation, then the rest. -/
def line (l : List Char) : Keyboard Unit := do
  matchIndent (Indentation.ofLine l) (← get).editor.caret
  chars (l.dropWhile Unicode.isWhiteSpace)

/-- Types lines, each on a new line. -/
def newLines : List (List Char) → Keyboard Unit
  | [] => pure ()
  | l :: rest => do
    enter
    line l
    newLines rest

/-- Types a text. -/
def text (t : List Char) : Keyboard Unit :=
  match Text.lines t with
  | [] => pure ()
  | first :: rest => do
    line first
    newLines rest

/-- Types a text and compares what comes out. -/
def textExactly (t : List Char) : Keyboard KeyCount := do
  let ed := (← get).editor
  let expected := ed.text.take ed.caret ++ t ++ ed.text.drop ed.caret
  text t
  if (← get).editor.text ≠ expected then
    throw .diverged
  return (← get).keys

end Keyboard

namespace Editor

/-- Inserts a text at the caret as a whole. -/
def paste (ed : Editor) (text : List Char) : Except EditError Editor := do
  let (_, ed') ← ed.apply (.insert ed.caret text)
  return ed'

/-- Types a text at the caret.  Returns how many keys that took, or the failure. -/
def typeText (ed : Editor) (text : List Char) : Except TypingError KeyCount × Editor :=
  match Keyboard.textExactly text ⟨ed, ⟨0, 0, 0⟩⟩ with
  | .ok keys t => (.ok keys, t.editor)
  | .error e t => (.error e, t.editor)

end Editor
end MetaPostEditor
