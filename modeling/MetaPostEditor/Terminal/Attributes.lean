import MetaPostEditor.Text

/-!
# Text attributes

Besides its colour, text on a terminal has attributes, each of which is on or off.  A set of them is
stored as the bits of a byte.  Two bits stand for no attribute; they are kept but not shown.
-/

namespace MetaPostEditor
namespace Terminal

/-- One attribute. -/
inductive Attribute where
  | bold
  | dim
  | italic
  | underline
  | inverse
  | strikethrough
deriving DecidableEq

namespace Attribute

/-- All attributes, in their fixed order. -/
def all : List Attribute :=
  [bold, dim, italic, underline, inverse, strikethrough]

/-- The bit of the attribute. -/
def bit : Attribute → UInt8
  | bold => 1
  | dim => 2
  | italic => 4
  | underline => 8
  | inverse => 16
  | strikethrough => 32

end Attribute

/-- A set of attributes. -/
structure Attributes where
  bits : UInt8
deriving DecidableEq, Inhabited

namespace Attributes

/-- No attributes. -/
def empty : Attributes :=
  ⟨0⟩

/-- The set of one attribute. -/
def single (a : Attribute) : Attributes :=
  ⟨a.bit⟩

/-- The attributes of either set. -/
def union (s t : Attributes) : Attributes :=
  ⟨s.bits ||| t.bits⟩

/-- No bit is set. -/
def isEmpty (s : Attributes) : Bool :=
  s.bits == 0

/-- The attribute is in the set. -/
def has (s : Attributes) (a : Attribute) : Bool :=
  s.bits &&& a.bit != 0

/-- The attributes in the set, in their fixed order. -/
def toList (s : Attributes) : List Attribute :=
  Attribute.all.filter s.has

/-- The set with a given name. -/
def named? : String → Option Attributes
  | "bold" => some (single .bold)
  | "dim" => some (single .dim)
  | "italic" => some (single .italic)
  | "underline" => some (single .underline)
  | "inverse" | "reverse" => some (single .inverse)
  | "strikethrough" => some (single .strikethrough)
  | "none" => some empty
  | _ => none

/-- The union of the sets with given names, if they are all known. -/
def unionNamed? : List (List Char) → Option Attributes
  | [] => some empty
  | name :: rest => do
    let s ← named? (String.ofList (Text.lower name))
    let t ← unionNamed? rest
    return s.union t

/-- Reads names with `+` between them.  White space around a name, the case of its letters and empty
names do not matter. -/
def parse? (text : List Char) : Option Attributes :=
  let names := (Text.split (fun c => c == '+') text).map Text.trim
  unionNamed? (names.filter fun name => !name.isEmpty)

end Attributes
end Terminal
end MetaPostEditor
