import MetaPostEditor.Lexicon
import MetaPostEditor.Tag
import MetaPostEditor.Unicode.Alphabetic
import MetaPostEditor.Unicode.Numeric

/-!
# The scanner

A finite automaton reads a MetaPost text from left to right.  Each character leads to a state, and
the characters of a longest stretch that leads to one and the same state form a token.  A token is
made when a character leads to another state, and the end of the text leads to a state of its own.

A scan may start in the middle of a text, inside a string or a comment that was opened earlier, so
the state to start in is given by the caller.

Both quotes that delimit a string are tokens of their own and carry the tag `normal`; only the text
between them is `quoted`.  A character with the tag `quoted` thus always lies inside a string.
-/

namespace MetaPostEditor

/-- A piece of text under one tag, with its place in the scanned text. -/
structure Token where
  tag : Tag
  text : List Char
  /-- The number of characters before the token. -/
  start : Nat
  /-- The number of characters that the token tags. -/
  length : Nat
deriving DecidableEq

namespace Scanner

/-- What the scanner knows after a character. -/
inductive State where
  | normal
  /-- In a word, which may turn out to be reserved. -/
  | word
  | digits
  /-- In the text of a string. -/
  | quoted
  /-- Just after the quote that opens a string. -/
  | openQuote
  /-- Just after the quote that closes a string. -/
  | closeQuote
  | comment
  /-- Behind the end of a text.  A text that follows is read as from `normal`. -/
  | done
deriving DecidableEq, Inhabited

/-- The state is inside a string, so that the next quote closes it. -/
def State.inString : State → Bool
  | quoted | openQuote => true
  | _ => false

/-- The state to start in right after a character with the given tag. -/
def State.after : Option Tag → State
  | some .quoted => .quoted
  | some .comment => .comment
  | _ => .normal

/-- Reads one character.  The flag `comments` says whether `%` opens a comment. -/
def State.step (comments : Bool) (s : State) (c : Char) : State :=
  if s.inString then
    if c = '"' then .closeQuote else .quoted
  else if s = .comment ∧ comments then
    if c = '\n' then .normal else .comment
  else if Unicode.isNumeric c then .digits
  else if Unicode.isAlphabetic c then .word
  else if c = '"' then .openQuote
  else if c = '%' ∧ comments then .comment
  else .normal

/-- The tag of a token, from the state that its characters lead to and its text. -/
def State.tag (s : State) (text : List Char) : Tag :=
  match s with
  | digits => .digits
  | word =>
    if Lexicon.isKeyword (String.ofList text) then .keyword
    else if Lexicon.isDatatype (String.ofList text) then .datatype
    else .normal
  | quoted => .quoted
  | comment => .comment
  | _ => .normal

/-- The state that a character leads to, or the end of the text. -/
def State.next (comments : Bool) (s : State) : Option Char → State
  | none => .done
  | some c => s.step comments c

/-- A scan on its way. -/
structure Scan where
  state : State
  /-- The tokens that have been made, the last one first. -/
  tokens : List Token
  /-- The characters that are not in a token yet, the last one first. -/
  run : List Char
  /-- The number of characters in tokens. -/
  start : Nat
  /-- The number of characters that are not in a token yet. -/
  length : Nat

namespace Scan

/-- Nothing has been read. -/
def begin (s : State) : Scan :=
  ⟨s, [], [], 0, 0⟩

/-- Goes over to a state.  If it is another one, the characters since the last token are made one,
if there are any. -/
def enter (scan : Scan) (next : State) : Scan :=
  if next = scan.state then scan
  else
    let flushed :=
      if scan.length > 0 then
        let text := scan.run.reverse
        { scan with
          tokens := ⟨scan.state.tag text, text, scan.start, scan.length⟩ :: scan.tokens
          run := [] }
      else scan
    { flushed with state := next, start := scan.start + scan.length, length := 0 }

/-- Reads a character, or the end of the text. -/
def read (comments : Bool) (scan : Scan) (c : Option Char) : Scan :=
  let entered := scan.enter (scan.state.next comments c)
  match c with
  | some c => { entered with run := c :: entered.run, length := entered.length + 1 }
  | none => entered

end Scan
end Scanner

/-- The tokens of a text that is read from the state `s` on. -/
def tokenize (comments : Bool) (s : Scanner.State) (text : List Char) : List Token :=
  let ended := text.map some ++ [none]
  (ended.foldl (Scanner.Scan.read comments) (.begin s)).tokens.reverse

end MetaPostEditor
