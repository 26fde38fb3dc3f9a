import MetaPostEditor.Text

/-!
# Widening a place to whole words

Text that is put into the middle of a word changes what the whole word is.  The place of an
insertion is therefore widened over the parts of words that touch it, and the scanner reads the
widened piece.

White space at an end of the inserted text cuts it off from the word on that side, so that side
stays as it is.  Where comments are shown a change can reach up to the end of the line, and the
right side is widened that far.
-/

namespace MetaPostEditor

/-- A place in a text together with what touches it on both sides. -/
structure Widening where
  /-- Where the widened piece starts. -/
  start : Nat
  /-- Where the widened piece ends. -/
  stop : Nat
  /-- The text from `start` to the place. -/
  left : List Char
  /-- The text from the place to `stop`. -/
  right : List Char
deriving DecidableEq

/-- The widened piece after `inserted` has been put at the place. -/
def Widening.splice (w : Widening) (inserted : List Char) : List Char :=
  w.left ++ inserted ++ w.right

/-- Widens the place at `position`, where `inserted` is about to be put, to the words that touch it.
A position behind the end of the text stands for its end. -/
def widen (text : List Char) (position : Nat) (inserted : List Char) (toLineEnd : Bool) :
    Widening :=
  let before := text.take position
  let after := text.drop position
  let left :=
    if Text.startsBlank inserted then []
    else (before.reverse.takeWhile fun c => !Unicode.isWhiteSpace c).reverse
  let right :=
    if toLineEnd then after.takeWhile fun c => c != '\n'
    else if Text.endsBlank inserted then []
    else after.takeWhile fun c => !Unicode.isWhiteSpace c
  { start := before.length - left.length
    stop := before.length + right.length
    left, right }

end MetaPostEditor
