import MetaPostEditor.Unicode.Width

/-!
# Columns on the screen

The column in which a character of a line appears depends on the widths of those before it.  A tab
reaches to the next multiple of eight.  Columns are words of 64 bits, and a sum of columns that does
not fit in a word wraps around.

The widths of the characters are a parameter, as nothing but the tab is treated by its own rule; the
columns on the screen are those for the widths of Unicode.
-/

namespace MetaPostEditor
namespace Terminal

/-- The distance of the tab stops. -/
def tabWidth : UInt64 := 8

/-- The number of columns that a character fills when it starts in the given column, where `width`
tells the widths of all characters but the tab. -/
def charWidthBy (width : Char → UInt64) (c : Char) (column : UInt64) : UInt64 :=
  if c = '\t' then tabWidth - column % tabWidth else width c

/-- The column behind a character that starts in the given column. -/
def nextColumn (width : Char → UInt64) (column : UInt64) (c : Char) : UInt64 :=
  column + charWidthBy width c column

/-- The column behind a text that starts in the given column. -/
def behind (width : Char → UInt64) (column : UInt64) (text : List Char) : UInt64 :=
  text.foldl (nextColumn width) column

/-- The column in which character number `n` of a line appears, for given widths.  Behind the end of
the line each character counts one column. -/
def columnBy (width : Char → UInt64) (line : List Char) (n : UInt64) : UInt64 :=
  let shown := line.take n.toNat
  behind width 0 shown + (n - UInt64.ofNat shown.length)

/-- The number of columns that Unicode gives a character. -/
def unicodeWidth (c : Char) : UInt64 :=
  UInt64.ofNat (Unicode.width c)

/-- The number of columns that a character fills when it starts in the given column. -/
def charWidth (c : Char) (column : UInt64) : UInt64 :=
  charWidthBy unicodeWidth c column

/-- The column in which character number `n` of a line appears. -/
def displayColumn (line : List Char) (n : UInt64) : UInt64 :=
  columnBy unicodeWidth line n

end Terminal
end MetaPostEditor
