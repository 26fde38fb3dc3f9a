/-!
# The reserved words of MetaPost

Two tables decide how a complete word is shown: the keywords, which are the primitives and macros
that steer a program or draw, and the datatypes, which are the types a variable can be declared
with.

Both tables are in ascending order, so a word is looked up by halving: of the words that are left,
each step keeps those on one side of the middle.
-/

namespace MetaPostEditor
namespace Lexicon

/-- The primitives and macros that steer a program or draw. -/
def keywords : List String :=
  ["beginfig", "begingroup", "btex", "cycle", "dashed", "def", "dir", "draw", "drawarrow",
   "drawdblarrow", "else", "elseif", "end", "enddef", "endfig", "endfor", "endgroup", "etex",
   "evenly", "exitif", "exitunless", "fi", "fill", "filldraw", "for", "forever", "forsuffixes",
   "fullcircle", "if", "label", "pencircle", "pickup", "reflectedabout", "reverse", "rotated",
   "rotatedaround", "save", "scaled", "shifted", "step", "transformed", "undraw", "unfill",
   "unfilldraw", "unitsquare", "until", "upto", "vardef", "verbatimtex", "withcolor", "withdots",
   "withpen", "xscaled", "yscaled"]

/-- The types that a variable can be declared with. -/
def datatypes : List String :=
  ["boolean", "cmykcolor", "color", "numeric", "pair", "path", "pen", "picture", "rgbcolor",
   "string", "transform"]

/-- Looks for `word` in a table in ascending order.  Each step leaves fewer words than there were,
so as many steps as the table has words are enough. -/
def search (word : String) : Nat → List String → Bool
  | 0, _ => false
  | steps + 1, table =>
    match table.drop (table.length / 2) with
    | [] => false
    | middle :: behind =>
      match compare word middle with
      | .lt => search word steps (table.take (table.length / 2))
      | .eq => true
      | .gt => search word steps behind

/-- Whether `word` is one of the keywords. -/
def isKeyword (word : String) : Bool :=
  search word keywords.length keywords

/-- Whether `word` is one of the datatypes. -/
def isDatatype (word : String) : Bool :=
  search word datatypes.length datatypes

end Lexicon
end MetaPostEditor
