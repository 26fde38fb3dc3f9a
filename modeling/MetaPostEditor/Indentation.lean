import MetaPostEditor.Text

/-!
# The indentation of lines

The lines of a source are what stands between newline characters; no other character ends a line
here.  The indentation of a line is the white space it starts with.

An offset into a text names the line it lies on, and of that line only the part before the offset
counts.  Offsets behind the end of the text stand for its end.  The line is found by walking back
through the text, and its indentation by walking forward again.
-/

namespace MetaPostEditor
namespace Indentation

/-- The white space that a line starts with. -/
def ofLine (line : List Char) : List Char :=
  line.takeWhile Unicode.isWhiteSpace

/-- Walks back from an offset, up to the first newline before it or the start of the text. -/
def backToNewline (text : List Char) : Nat → Nat
  | 0 => 0
  | i + 1 => if text[i]? = some '\n' then i + 1 else backToNewline text i

theorem backToNewline_le (text : List Char) (i : Nat) : backToNewline text i ≤ i := by
  induction i with
  | zero => exact Nat.le_refl _
  | succ i ih =>
    rw [backToNewline]
    split
    · exact Nat.le_refl _
    · exact Nat.le_succ_of_le ih

/-- Where the line that `offset` lies on starts. -/
def lineStart (text : List Char) (offset : Nat) : Nat :=
  backToNewline text (min offset text.length)

theorem lineStart_le (text : List Char) (offset : Nat) : lineStart text offset ≤ offset :=
  Nat.le_trans (backToNewline_le _ _) (Nat.min_le_left _ _)

/-- Walks over white space from an offset on, over a given number of characters at most. -/
def overBlanks (text : List Char) : Nat → Nat → Nat
  | i, 0 => i
  | i, n + 1 => if text[i]?.any Unicode.isWhiteSpace then overBlanks text (i + 1) n else i

/-- The white space that stands at `start`, up to `stop` at most. -/
def blanks (text : List Char) (start stop : Nat) : List Char :=
  (text.take (overBlanks text start (stop - start))).drop start

/-- The indentation, up to `offset`, of the line that `offset` lies on. -/
def before (text : List Char) (offset : Nat) : List Char :=
  let stop := min offset text.length
  blanks text (lineStart text stop) stop

/-- Only white space stands between the start of the line and `offset`. -/
def blankBefore (text : List Char) (offset : Nat) : Bool :=
  let stop := min offset text.length
  let start := lineStart text stop
  (blanks text start stop).length == stop - start

/-- Walks back from the start of a line, line by line, up to one that is indented by less than
`depth`.  Returns its indentation, and none if there is no such line. -/
def shallowerThan (text : List Char) (depth : Nat) : Nat → List Char
  | 0 => []
  | newline + 1 =>
    let start := lineStart text newline
    let indent := blanks text start newline
    if indent.length < depth then indent else shallowerThan text depth start
termination_by start => start
decreasing_by exact Nat.lt_succ_of_le (lineStart_le text newline)

/-- The indentation of the nearest earlier line that is indented less than the line `offset` lies
on, and no indentation if there is no such line. -/
def shallowerBefore (text : List Char) (offset : Nat) : List Char :=
  let stop := min offset text.length
  let start := lineStart text stop
  shallowerThan text (blanks text start stop).length start

end Indentation
end MetaPostEditor
