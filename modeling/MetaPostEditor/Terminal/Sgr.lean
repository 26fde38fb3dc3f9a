import MetaPostEditor.Terminal.Attributes
import MetaPostEditor.Terminal.Color

/-!
# Escape sequences for colours and attributes

A terminal changes the look of the text that follows when it receives a sequence named *select
graphic rendition*: an escape character, a bracket, numbers with semicolons between them, and the
letter `m`.
-/

namespace MetaPostEditor
namespace Terminal
namespace Sgr

/-- The sequence with the given numbers. -/
def sequence (codes : List Nat) : List Char :=
  ['\x1b', '['] ++ [';'].intercalate (codes.map (Nat.toDigits 10)) ++ ['m']

/-- Brings back the look that the terminal starts with. -/
def reset : List Char :=
  sequence [0]

/-- The numbers that choose a colour.  The first sixteen colours of the palette have numbers of
their own. -/
def colorCodes : Color → List Nat
  | .default => [39]
  | .indexed n =>
    if n < 8 then [30 + n.toNat]
    else if n < 16 then [82 + n.toNat]
    else [38, 5, n.toNat]
  | .rgb r g b => [38, 2, r.toNat, g.toNat, b.toNat]

/-- Chooses a colour. -/
def color (c : Color) : List Char :=
  sequence (colorCodes c)

/-- The number that turns an attribute on. -/
def attributeCode : Attribute → Nat
  | .bold => 1
  | .dim => 2
  | .italic => 3
  | .underline => 4
  | .inverse => 7
  | .strikethrough => 9

/-- Turns attributes on.  Nothing is written for the empty set. -/
def attributes (s : Attributes) : List Char :=
  if s.isEmpty then [] else sequence (s.toList.map attributeCode)

end Sgr
end Terminal
end MetaPostEditor
