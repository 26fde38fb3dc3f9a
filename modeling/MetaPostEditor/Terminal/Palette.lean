import MetaPostEditor.Tag
import MetaPostEditor.Terminal.Attributes
import MetaPostEditor.Terminal.Color

/-!
# Palettes

A palette says how text under each tag looks on the screen.  The look of a tag is changed by an
entry of the form `TAG=COLOUR,ATTRIBUTES`, in which the attributes may be left out.
-/

namespace MetaPostEditor
namespace Terminal

/-- How a piece of text looks. -/
structure Look where
  color : Color
  attributes : Attributes
deriving DecidableEq, Inhabited

namespace Look

/-- The look that the terminal gives text by itself. -/
def plain : Look :=
  ⟨.default, .empty⟩

/-- Nothing sets the text apart. -/
def isPlain (l : Look) : Bool :=
  l.color == .default && l.attributes.isEmpty

end Look

/-- The look of each tag. -/
structure Palette where
  look : Tag → Look

/-- Why an entry is refused, with the part at fault as it was written. -/
inductive PaletteError where
  | unknownTag (name : String)
  | badColor (color : String)
  | badAttributes (attributes : String)
  | malformed (entry : String)
deriving DecidableEq

/-- The text that reports the refusal. -/
def PaletteError.message : PaletteError → String
  | unknownTag name => s!"unknown style: {name}"
  | badColor color => s!"invalid color: {color}"
  | badAttributes attributes => s!"invalid attributes: {attributes}"
  | malformed entry => s!"expected STYLE=COLOR[,ATTRS]: {entry}"

namespace Palette

/-- No tag is set apart. -/
def plain : Palette :=
  ⟨fun _ => .plain⟩

/-- The palette that is used if no other is asked for. -/
def default : Palette where
  look
    | .normal => .plain
    | .keyword => ⟨.indexed 4, .single .bold⟩
    | .datatype => ⟨.indexed 2, .single .bold⟩
    | .digits => ⟨.indexed 5, .single .bold⟩
    | .quoted => ⟨.indexed 5, .single .bold⟩
    | .comment => ⟨.indexed 8, .single .italic⟩

/-- Gives a tag a look. -/
def set (p : Palette) (tag : Tag) (look : Look) : Palette :=
  ⟨fun t => if t = tag then look else p.look t⟩

/-- The tag with a given name, in letters of either case. -/
def tagNamed? (name : List Char) : Option Tag :=
  Tag.all.find? fun tag => Text.lower tag.name.toList == Text.lower name

/-- Changes the palette by an entry. -/
def setEntry (p : Palette) (entry : String) : Except PaletteError Palette := do
  let some (name, value) := Text.cut? '=' entry.toList
    | throw (.malformed entry)
  let some tag := tagNamed? (Text.trim name)
    | throw (.unknownTag (String.ofList name))
  let (color, attributes) := (Text.cut? ',' value).getD (value, [])
  let some c := Color.parse? (Text.trim color)
    | throw (.badColor (String.ofList color))
  let some s := Attributes.parse? attributes
    | throw (.badAttributes (String.ofList attributes))
  return p.set tag ⟨c, s⟩

/-- Changes the palette by entries up to the first that is refused, which is returned with its
refusal. -/
def setEntries (p : Palette) : List String → Except (String × PaletteError) Palette
  | [] => .ok p
  | entry :: rest =>
    match p.setEntry entry with
    | .ok p' => p'.setEntries rest
    | .error e => .error (entry, e)

end Palette
end Terminal
end MetaPostEditor
