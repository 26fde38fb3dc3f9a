import MetaPostEditor.Numeral
import MetaPostEditor.Text

/-!
# Colours

The colour of text on a terminal is given by its red, green and blue parts, by its number in the
palette of 256 colours, or it is the one that the terminal uses by itself.  The first eight numbers
have names.
-/

namespace MetaPostEditor
namespace Terminal

/-- A colour of text. -/
inductive Color where
  | rgb (red green blue : UInt8)
  | indexed (number : UInt8)
  /-- The colour that the terminal uses by itself. -/
  | default
deriving DecidableEq, Inhabited

namespace Color

/-- Reads two hexadecimal digits. -/
def channel? (high low : Char) : Option UInt8 :=
  (Numeral.read? 16 UInt8.size [high, low]).map UInt8.ofNat

/-- Reads a colour from its three parts, two hexadecimal digits each. -/
def parts? : List Char → Option Color
  | [r₁, r₂, g₁, g₂, b₁, b₂] => do
    return rgb (← channel? r₁ r₂) (← channel? g₁ g₂) (← channel? b₁ b₂)
  | _ => none

/-- Reads a colour from its three parts, with at most one `#` in front. -/
def hex? : List Char → Option Color
  | '#' :: digits => parts? digits
  | digits => parts? digits

/-- The colours that have names. -/
def named? : String → Option Color
  | "black" => some (indexed 0)
  | "red" => some (indexed 1)
  | "green" => some (indexed 2)
  | "yellow" => some (indexed 3)
  | "blue" => some (indexed 4)
  | "magenta" => some (indexed 5)
  | "cyan" => some (indexed 6)
  | "white" => some (indexed 7)
  | "gray" | "grey" => some (indexed 8)
  | "default" | "none" => some default
  | _ => none

/-- Reads a colour: a name, a number, or its three parts.  The case of letters does not matter. -/
def parse? (text : List Char) : Option Color :=
  let small := Text.lower text
  (named? (String.ofList small))
    <|> ((Numeral.read? 10 UInt8.size small).map fun n => indexed (UInt8.ofNat n))
    <|> hex? small

/-- Two hexadecimal digits. -/
def hexByte (n : UInt8) : String :=
  String.ofList [Nat.digitChar (n.toNat / 16), Nat.digitChar (n.toNat % 16)]

/-- The colour as it is read. -/
def render : Color → String
  | rgb r g b => "#" ++ hexByte r ++ hexByte g ++ hexByte b
  | indexed n => toString n
  | default => "default"

/-- The colour with a word that says how it is given. -/
def renderRaw : Color → String
  | rgb r g b => "Rgb(" ++ (rgb r g b).render ++ ")"
  | indexed n => "Ansi256(" ++ (indexed n).render ++ ")"
  | default => "Default"

end Color
end Terminal
end MetaPostEditor
