import MetaPostEditor.Unicode.WhiteSpace

/-!
# Cutting texts apart

Texts are lists of characters.  They are cut at separators into lines, words and the parts of an
entry.
-/

namespace MetaPostEditor
namespace Text

/-- Puts a character in front of the pieces of a text: a separator opens a new piece, any other
character joins the first one. -/
def consPiece (sep : Char → Bool) (c : Char) : List (List Char) → List (List Char)
  | [] => if sep c then [[], []] else [[c]]
  | piece :: rest => if sep c then [] :: piece :: rest else (c :: piece) :: rest

/-- The pieces of a text between its separators.  There is one more of them than there are
separators, and each may be empty. -/
def split (sep : Char → Bool) (text : List Char) : List (List Char) :=
  text.foldr (consPiece sep) [[]]

theorem split_cons (sep : Char → Bool) (c : Char) (text : List Char) :
    split sep (c :: text) = consPiece sep c (split sep text) := rfl

theorem split_ne_nil (sep : Char → Bool) (text : List Char) : split sep text ≠ [] := by
  cases text with
  | nil => simp [split]
  | cons c rest =>
    rw [split_cons]
    cases split sep rest <;> simp only [consPiece] <;> split <;> simp

/-- The lines of a text, without the newlines between them. -/
def lines (text : List Char) : List (List Char) :=
  split (fun c => c == '\n') text

/-- The words of a text, without the white space around them. -/
def words (text : List Char) : List (List Char) :=
  (split Unicode.isWhiteSpace text).filter fun word => !word.isEmpty

/-- The parts of a text before and behind its first `sep`, if it has one. -/
def cut? (sep : Char) : List Char → Option (List Char × List Char)
  | [] => none
  | c :: rest =>
    if c = sep then some ([], rest)
    else (cut? sep rest).map fun (before, behind) => (c :: before, behind)

/-- The part of a text before a final `c`, if it ends so. -/
def dropFinal? (c : Char) (text : List Char) : Option (List Char) :=
  if text.getLast? = some c then some text.dropLast else none

/-- The text without the white space at both ends. -/
def trim (text : List Char) : List Char :=
  ((text.dropWhile Unicode.isWhiteSpace).reverse.dropWhile Unicode.isWhiteSpace).reverse

/-- The text with the letters `A` to `Z` in lower case. -/
def lower (text : List Char) : List Char :=
  text.map Char.toLower

/-- The text starts with white space. -/
def startsBlank (text : List Char) : Bool :=
  text.head?.any Unicode.isWhiteSpace

/-- The text ends with white space. -/
def endsBlank (text : List Char) : Bool :=
  text.getLast?.any Unicode.isWhiteSpace

end Text
end MetaPostEditor
