import MetaPostEditor.Unicode.DefaultIgnorable
import MetaPostEditor.Unicode.GraphemeExtend
import MetaPostEditor.Unicode.Wide

/-!
# The width of a character

How many columns of a terminal a character fills, the tab apart.

* Controls and invisible characters fill none.
* Marks and letters that are drawn onto the character before or after them fill none.
* The vowels and final consonants of Hangul join the syllable that a leading consonant began, and
  fill none either.
* Wide characters fill two columns, and all others one.

A few characters are drawn otherwise than their properties say, and are listed one by one.
-/

namespace MetaPostEditor
namespace Unicode

/-- A control character. -/
def isControl (c : Char) : Bool :=
  RangeTable.contains [(0x0, 0x1f), (0x7f, 0x9f)] c.toNat

/-- The combining marks that were added after Unicode 17.0. -/
def newCombiningTable : RangeTable :=
  [(0x5c8, 0x5c9), (0xb53, 0xb54), (0x1ade, 0x1adf), (0x1aec, 0x1af0), (0x10ecb, 0x10ecf),
   (0x10ef0, 0x10ef9), (0x11df0, 0x11df0), (0x1d127, 0x1d128), (0x1d250, 0x1d252),
   (0x1d25b, 0x1d25c), (0x1d25f, 0x1d25f), (0x1d280, 0x1d281)]

/-- The letters that are drawn onto the character after them: the value `Prepend` of the property
`Grapheme_Cluster_Break`, without the signs that enclose a number. -/
def prependedTable : RangeTable :=
  [(0xd4e, 0xd4e), (0x111c2, 0x111c3), (0x113d1, 0x113d1), (0x1193f, 0x1193f),
   (0x11941, 0x11941), (0x11a84, 0x11a89), (0x11d46, 0x11d46), (0x11f02, 0x11f02)]

/-- A Hangul vowel or final consonant, in its combining form. -/
def isJoiningJamo (c : Char) : Bool :=
  RangeTable.contains [(0x1160, 0x11ff), (0xd7b0, 0xd7c6), (0xd7cb, 0xd7fb)] c.toNat

/-- A character that is drawn onto a neighbour. -/
def isAttached (c : Char) : Bool :=
  isCombining c || newCombiningTable.contains c.toNat || prependedTable.contains c.toNat
    || isJoiningJamo c

/-- The width of the characters that are drawn otherwise than their properties say: a joiner that is
visible on its own, a filler that stands for a leading consonant, two Khmer signs that are drawn as
several letters, five signs that enclose the numbers after them, and a caret that points between
two letters. -/
def exceptionalWidth? (c : Char) : Option Nat :=
  match c.toNat with
  | 0x2d7f => some 1
  | 0x115f | 0x17a4 => some 2
  | 0x17d8 => some 3
  | 0x0605 | 0x070f | 0x0890 | 0x0891 | 0x08e2 => some 0
  | 0xa8fa => some 0
  | _ => none

/-- The number of columns that a character fills. -/
def width (c : Char) : Nat :=
  match exceptionalWidth? c with
  | some n => n
  | none =>
    if isControl c || isDefaultIgnorable c || isAttached c then 0
    else if isWide c then 2
    else 1

end Unicode
end MetaPostEditor
