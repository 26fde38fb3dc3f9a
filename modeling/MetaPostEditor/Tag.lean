/-!
# Style tags

Every character of a MetaPost source carries a tag that says how it is shown.  A stretch of text
under one tag is a span.
-/

namespace MetaPostEditor

/-- What a character is, as far as its display is concerned. -/
inductive Tag where
  | normal
  | keyword
  | datatype
  | digits
  | quoted
  | comment
deriving DecidableEq, Inhabited

namespace Tag

/-- All tags, in their fixed order. -/
def all : List Tag :=
  [normal, keyword, datatype, digits, quoted, comment]

/-- The name under which a tag is written. -/
def name : Tag → String
  | normal => "NORMAL"
  | keyword => "KEYWORD"
  | datatype => "DATATYPE"
  | digits => "DIGITS"
  | quoted => "QUOTED"
  | comment => "COMMENT"

/-- The tag with a given name. -/
def ofName? (s : String) : Option Tag :=
  all.find? fun tag => tag.name == s

end Tag

/-- A stretch of text that is shown in one way. -/
structure Span where
  tag : Tag
  text : List Char
deriving DecidableEq

end MetaPostEditor
