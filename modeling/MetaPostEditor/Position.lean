/-!
# Lines and columns

A place in a text is shown to the user as a line and a column.  For this purpose a line ends after
each of the line ends that Unicode knows, and a carriage return with a line feed behind it is one
line end: the place between the two still lies on the line that they end.

The text is kept in a rope, and the rope is asked for the number of a line and for its start.  What
is assumed of the rope is that its lines start at `Position.starts`; it answers both questions from
there.
-/

namespace MetaPostEditor

/-- A place in a text, both numbers counted from zero. -/
structure Position where
  line : Nat
  column : Nat
deriving DecidableEq, Inhabited

namespace Position

/-- The start of a text. -/
def zero : Position :=
  ⟨0, 0⟩

/-- Earlier lines come first, and on one line earlier columns. -/
instance : Ord Position where
  compare a b := (compare a.line b.line).then (compare a.column b.column)

/-- Line and column as the user counts them, from one. -/
def render (p : Position) : String :=
  s!"{p.line + 1}:{p.column + 1}"

/-- Line and column counted from zero, marked as such. -/
def renderRaw (p : Position) : String :=
  s!"Pos({p.line}:{p.column})"

/-- Line feed, vertical tab, form feed, carriage return, next line, and the line and paragraph
separators. -/
def isLineEnd (c : Char) : Bool :=
  ['\n', '\x0b', '\x0c', '\r', '\u0085', '\u2028', '\u2029'].contains c

/-- A line ends after `c` when `rest` follows. -/
def endsLine (c : Char) (rest : List Char) : Bool :=
  isLineEnd c && !(c == '\r' && rest.head? == some '\n')

/-- The offsets behind the line ends of the rest of a text, which begins at `offset`. -/
def startsFrom (offset : Nat) : List Char → List Nat
  | [] => []
  | c :: rest =>
    let later := startsFrom (offset + 1) rest
    if endsLine c rest then (offset + 1) :: later else later

/-- The offsets at which the lines of a text start. -/
def starts (text : List Char) : List Nat :=
  0 :: startsFrom 0 text

/-- The number of the line on which an offset lies, which is the last one that starts up to it. -/
def lineOf (text : List Char) (offset : Nat) : Nat :=
  (starts text).countP (· ≤ offset) - 1

/-- The offset at which a line starts.  The line behind the last one starts at the end. -/
def startOf (text : List Char) (line : Nat) : Nat :=
  (starts text)[line]?.getD text.length

/-- The place `offset` characters into a text, if the text is that long. -/
def ofOffset? (text : List Char) (offset : Nat) : Option Position :=
  if text.length < offset then none
  else
    let line := lineOf text offset
    some ⟨line, offset - startOf text line⟩

end Position
end MetaPostEditor
