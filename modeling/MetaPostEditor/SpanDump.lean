import MetaPostEditor.Tag
import MetaPostEditor.Unicode.DefaultIgnorable
import MetaPostEditor.Unicode.GraphemeExtend
import MetaPostEditor.Unicode.Unprintable

/-!
# Listing spans

Spans are listed one to a line: the name of the tag, a tab, and the text.  The text is written so
that it stays on its line and every character can be seen.  Characters with a meaning in such a
notation, and those without a visible form, are written as escapes.  A mark that would be drawn onto
the tab before the text is escaped too.
-/

namespace MetaPostEditor
namespace SpanDump

/-- A character by its number. -/
def numericEscape (c : Char) : List Char :=
  ['\\', 'u', '\x7b'] ++ Nat.toDigits 16 c.toNat ++ ['\x7d']

/-- A character that leaves nothing to be seen. -/
def isHidden (c : Char) : Bool :=
  Unicode.isUnprintable c || Unicode.isDefaultIgnorable c

/-- A character inside a text. -/
def escape (c : Char) : List Char :=
  match c with
  | '\x00' => ['\\', '0']
  | '\t' => ['\\', 't']
  | '\r' => ['\\', 'r']
  | '\n' => ['\\', 'n']
  | '\x27' => ['\\', '\x27']
  | '"' => ['\\', '"']
  | '\\' => ['\\', '\\']
  | _ => if isHidden c then numericEscape c else [c]

/-- A character at the start of a text. -/
def escapeFirst (c : Char) : List Char :=
  if Unicode.isCombining c then numericEscape c else escape c

/-- A text. -/
def escapeText : List Char → List Char
  | [] => []
  | c :: rest => escapeFirst c ++ rest.flatMap escape

/-- The line of one span. -/
def line (span : Span) : List Char :=
  span.tag.name.toList ++ ['\t'] ++ escapeText span.text ++ ['\n']

/-- The lines of spans. -/
def render (spans : List Span) : List Char :=
  spans.flatMap line

end SpanDump
end MetaPostEditor
