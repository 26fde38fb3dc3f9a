import MetaPostEditor.Unicode.RangeTable

/-!
# White space

The property `White_Space` of Unicode 17.0: the blanks and line ends that separate words.
-/

namespace MetaPostEditor
namespace Unicode

/-- The code points with the property `White_Space`. -/
def whiteSpaceTable : RangeTable :=
  [(0x9, 0xd), (0x20, 0x20), (0x85, 0x85), (0xa0, 0xa0), (0x1680, 0x1680), (0x2000, 0x200a),
   (0x2028, 0x2029), (0x202f, 0x202f), (0x205f, 0x205f), (0x3000, 0x3000)]

/-- A character that separates words. -/
def isWhiteSpace (c : Char) : Bool :=
  whiteSpaceTable.contains c.toNat

end Unicode
end MetaPostEditor
