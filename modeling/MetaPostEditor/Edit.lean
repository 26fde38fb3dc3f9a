/-!
# Edits

An edit removes some characters at a place and puts a text there.  It is refused if it reaches
beyond the text it is made on.

Place and length of an edit are numbers.  From outside they come as words, and then their sum is one
of words, which is given up if it does not fit.
-/

namespace MetaPostEditor

/-- At `position`, remove `deleted` characters and then put `inserted` there. -/
structure Edit where
  position : Nat
  deleted : Nat
  inserted : List Char
deriving DecidableEq

/-- The sum of two words, if it is a word itself. -/
def checkedAdd? (a b : UInt64) : Option UInt64 :=
  let sum := a + b
  if sum < a then none else some sum

namespace Edit

/-- The edit that does nothing at the start of the text. -/
def empty : Edit :=
  ⟨0, 0, []⟩

/-- Puts a text at a place. -/
def insert (position : Nat) (text : List Char) : Edit :=
  ⟨position, 0, text⟩

/-- Removes characters at a place. -/
def delete (position count : Nat) : Edit :=
  ⟨position, count, []⟩

/-- The edit neither removes nor inserts anything. -/
def isEmpty (e : Edit) : Bool :=
  e.deleted == 0 && e.inserted.isEmpty

/-- The edit only removes. -/
def isDeletion (e : Edit) : Bool :=
  e.deleted > 0 && e.inserted.isEmpty

/-- The edit inserts one line break and nothing else, as the Enter key does. -/
def isNewline (e : Edit) : Bool :=
  e.inserted == ['\n']

end Edit

/-- Why a change of a styled text is refused. -/
inductive EditError where
  /-- The range of `deleted` characters at `position` does not lie in a text of `length` characters.
-/
  | outOfRange (position deleted length : Nat)
  /-- The tags for the new text at `offset` do not match its characters. -/
  | inconsistent (offset : Nat)
deriving DecidableEq

/-- The text that reports the refusal. -/
def EditError.message : EditError → String
  | outOfRange position deleted length =>
    s!"range {position}+{deleted} is outside the buffer (length {length})"
  | inconsistent offset => s!"no style tag before offset {offset}"

end MetaPostEditor
