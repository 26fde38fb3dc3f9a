import MetaPostEditor.Edit
import MetaPostEditor.Runs
import MetaPostEditor.Scanner

/-!
# Styled text

A buffer is a text in which every character carries a tag.  It is changed by putting new characters,
with their tags, in the place of a range.  Such a change is checked before it is made, and it is
returned to the caller, so that it can be taken back later.

A range is given by the offsets of its first character and of the first character behind it.
-/

namespace MetaPostEditor

/-- A character and its tag. -/
structure Cell where
  char : Char
  tag : Tag
deriving DecidableEq

/-- What a change of a buffer removed and put in its place. -/
structure Change where
  start : Nat
  removed : List Cell
  inserted : List Cell
deriving DecidableEq

namespace Change

/-- Nothing was removed and nothing inserted. -/
def isEmpty (c : Change) : Bool :=
  c.removed.isEmpty && c.inserted.isEmpty

/-- What was inserted is what was removed. -/
def isNoop (c : Change) : Bool :=
  c.removed == c.inserted

/-- The change that takes this one back. -/
def inverse (c : Change) : Change :=
  ⟨c.start, c.inserted, c.removed⟩

end Change

/-- A styled text. -/
structure Buffer where
  cells : List Cell
  /-- The text or a tag has changed since the text was last saved. -/
  modified : Bool
  /-- Counts the changes that had an effect.  The count has no bound here; a counter of 64 bits
  shows it modulo the number of words, and so is the same up to the change with which it starts
  again at zero. -/
  revision : Nat
deriving DecidableEq

namespace Buffer

/-- The buffer with no text. -/
def empty : Buffer :=
  ⟨[], false, 0⟩

/-- A fresh buffer in which every character has the tag `normal`. -/
def ofText (text : List Char) : Buffer :=
  ⟨text.map fun c => ⟨c, .normal⟩, false, 0⟩

/-- The number of characters. -/
def length (b : Buffer) : Nat :=
  b.cells.length

/-- There is no text. -/
def isEmpty (b : Buffer) : Bool :=
  b.cells.isEmpty

/-- The characters. -/
def text (b : Buffer) : List Char :=
  b.cells.map (·.char)

/-- The tags, one for each character. -/
def tags (b : Buffer) : List Tag :=
  b.cells.map (·.tag)

@[simp]
theorem length_text (b : Buffer) : b.text.length = b.length := by
  simp [text, length]

@[simp]
theorem length_tags (b : Buffer) : b.tags.length = b.length := by
  simp [tags, length]

@[simp]
theorem text_ofText (t : List Char) : (ofText t).text = t := by
  simp [text, ofText, Function.comp_def]

@[simp]
theorem tags_ofText (t : List Char) :
    (ofText t).tags = List.replicate t.length .normal := by
  simp [tags, ofText, Function.comp_def, List.map_const']

/-- The character at an offset. -/
def charAt? (b : Buffer) (offset : Nat) : Option Char :=
  b.cells[offset]?.map (·.char)

/-- The tag at an offset. -/
def tagAt? (b : Buffer) (offset : Nat) : Option Tag :=
  b.cells[offset]?.map (·.tag)

/-- The cells of a range. -/
def cellsIn (b : Buffer) (start stop : Nat) : List Cell :=
  (b.cells.take stop).drop start

/-- Refuses a range that is reversed or reaches behind the end. -/
def checkRange (b : Buffer) (start stop : Nat) : Except EditError Unit :=
  if start ≤ stop ∧ stop ≤ b.length then .ok ()
  else .error (.outOfRange start (stop - start) b.length)

/-- The text of a range. -/
def slice? (b : Buffer) (start stop : Nat) : Option (List Char) :=
  match b.checkRange start stop with
  | .ok () => some ((b.cellsIn start stop).map (·.char))
  | .error _ => none

/-- The runs of equal tags in a list of cells. -/
def spansOf (cells : List Cell) : List Span :=
  (runs (cells.map fun cell => (cell.tag, cell.char))).map fun (tag, text) => ⟨tag, text⟩

/-- The runs of equal tags in a range. -/
def spans (b : Buffer) (start stop : Nat) : Except EditError (List Span) := do
  b.checkRange start stop
  return spansOf (b.cellsIn start stop)

/-- The runs of equal tags in the whole text. -/
def allSpans (b : Buffer) : List Span :=
  spansOf b.cells

/-- Puts `inserted` in the place of a range.  A change without effect leaves no trace. -/
def splice (b : Buffer) (start stop : Nat) (inserted : List Cell) : Buffer × Change :=
  let change : Change := ⟨start, b.cellsIn start stop, inserted⟩
  if change.isNoop then (b, change)
  else
    ({ cells := b.cells.take start ++ inserted ++ b.cells.drop stop
       modified := true
       revision := b.revision + 1 }, change)

/-- After a change of a range that lies in the text, the new cells stand where the range was. -/
theorem cells_splice (b : Buffer) {start stop : Nat} (inserted : List Cell) (h : start ≤ stop) :
    (b.splice start stop inserted).1.cells =
      b.cells.take start ++ inserted ++ b.cells.drop stop := by
  unfold splice
  dsimp only
  split
  · next hnoop =>
    have hsame : b.cellsIn start stop = inserted := by simpa [Change.isNoop] using hnoop
    rw [← hsame, cellsIn, List.drop_take, List.append_assoc]
    conv => lhs; rw [← List.take_append_drop start b.cells]
    congr 1
    conv => lhs; rw [← List.take_append_drop (stop - start) (b.cells.drop start)]
    rw [List.drop_drop, Nat.add_sub_cancel' h]
  · rfl

/-- Puts `text`, tagged by `tags`, in the place of a range.  There must be one tag for each
character. -/
def replaceTagged (b : Buffer) (start stop : Nat) (text : List Char) (tags : List Tag) :
    Except EditError (Buffer × Change) := do
  b.checkRange start stop
  if text.length ≠ tags.length then
    throw (.inconsistent start)
  return b.splice start stop (List.zipWith Cell.mk text tags)

/-- Puts the texts of tokens in the place of a range, each token tagging as many characters as its
length says. -/
def replace (b : Buffer) (start stop : Nat) (tokens : List Token) :
    Except EditError (Buffer × Change) :=
  b.replaceTagged start stop (tokens.flatMap (·.text))
    (tokens.flatMap fun token => List.replicate token.length token.tag)

/-- Gives a range the tags of tokens whose texts must be the text of the range. -/
def restyle (b : Buffer) (start stop : Nat) (tokens : List Token) :
    Except EditError (Buffer × Change) := do
  b.checkRange start stop
  if tokens.flatMap (·.text) ≠ (b.cellsIn start stop).map (·.char) then
    throw (.inconsistent start)
  b.replace start stop tokens

/-- Removes a range. -/
def remove (b : Buffer) (start stop : Nat) : Except EditError (Buffer × Change) :=
  b.replaceTagged start stop [] []

/-- Makes a change again: its removed text gives way to its inserted text. -/
def perform (b : Buffer) (c : Change) : Except EditError Buffer := do
  let stop := c.start + c.removed.length
  b.checkRange c.start stop
  return (b.splice c.start stop c.inserted).1

/-- Makes changes one after the other up to the first that is refused.  Returns whether one was, and
the buffer as it is then. -/
def performAll (b : Buffer) : List Change → Except EditError Unit × Buffer
  | [] => (.ok (), b)
  | c :: rest =>
    match b.perform c with
    | .ok b' => b'.performAll rest
    | .error e => (.error e, b)

/-- Notes that the text has been saved. -/
def markSaved (b : Buffer) : Buffer :=
  { b with modified := false }

end Buffer
end MetaPostEditor
