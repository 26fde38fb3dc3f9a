import MetaPostEditor.Terminal.Palette
import MetaPostEditor.Terminal.Sgr

/-!
# Writing spans to a terminal

The pen knows the look that the terminal gives the text it receives next, and writes an escape
sequence only where a span needs another look.  Attributes are turned off by going back to the look
that the terminal starts with, which also gives up the colour.
-/

namespace MetaPostEditor
namespace Terminal

/-- The look that the terminal is set to. -/
structure Pen where
  look : Look
deriving DecidableEq, Inhabited

namespace Pen

/-- The pen of a terminal that has received nothing. -/
def fresh : Pen :=
  ⟨.plain⟩

/-- Changes the look.  Returns what is to be written. -/
def take (pen : Pen) (target : Look) : Pen × List Char :=
  let (color, written) :=
    if target.attributes = pen.look.attributes then (pen.look.color, [])
    else if pen.look.attributes.isEmpty then (pen.look.color, Sgr.attributes target.attributes)
    else (.default, Sgr.reset ++ Sgr.attributes target.attributes)
  (⟨target⟩, written ++ if color = target.color then [] else Sgr.color target.color)

/-- Writes a span.  Nothing is written for one without text. -/
def write (pen : Pen) (palette : Palette) (span : Span) : Pen × List Char :=
  if span.text.isEmpty then (pen, [])
  else
    let (pen', escapes) := pen.take (palette.look span.tag)
    (pen', escapes ++ span.text)

/-- Goes back to the look that the terminal starts with. -/
def finish (pen : Pen) : Pen × List Char :=
  (fresh, if pen.look.isPlain then [] else Sgr.reset)

/-- Writes spans and finishes. -/
def writeAll (pen : Pen) (palette : Palette) : List Span → Pen × List Char
  | [] => pen.finish
  | span :: rest =>
    let (pen', out) := pen.write palette span
    let (pen'', more) := pen'.writeAll palette rest
    (pen'', out ++ more)

end Pen

/-- The spans as a terminal receives them. -/
def render (palette : Palette) (spans : List Span) : List Char :=
  (Pen.fresh.writeAll palette spans).2

end Terminal
end MetaPostEditor
