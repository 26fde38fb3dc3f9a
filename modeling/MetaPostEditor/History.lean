import MetaPostEditor.Buffer

/-!
# Undo and redo

The changes that one edit makes form a transaction, which is undone and redone as a whole.  Changes
hold the tags of what they removed and inserted, so both directions bring back the styled text
exactly and nothing is scanned again.

A transaction is begun, its changes are recorded, and it is committed.  Committing pushes it on the
undo stack, from which the oldest transactions drop out beyond a limit, and empties the redo stack.
A transaction without recorded changes is dropped.
-/

namespace MetaPostEditor

/-- The changes of one edit. -/
structure Transaction where
  /-- The changes with an effect, in the order they were made. -/
  changes : List Change
  caretBefore : Nat
  caretAfter : Nat
  /-- Whether comments were shown when the changes were made. -/
  comments : Bool
deriving DecidableEq

/-- What an undo or a redo tells its caller besides the new text. -/
structure Restored where
  caret : Nat
  /-- Whether comments were shown when the tags that are back now were made. -/
  comments : Bool
deriving DecidableEq

/-- The transactions that can be undone and those that can be redone, the newest of each first. -/
structure History where
  undoStack : List Transaction
  redoStack : List Transaction
  /-- The transaction that has begun and is not committed. -/
  pending : Option Transaction
  /-- How many transactions the undo stack keeps. -/
  limit : Nat
deriving DecidableEq

namespace History

/-- A history in which nothing has happened. -/
def empty (limit : Nat) : History :=
  ⟨[], [], none, limit⟩

/-- Changes the number of transactions that the undo stack keeps. -/
def setLimit (h : History) (limit : Nat) : History :=
  { h with limit, undoStack := h.undoStack.take limit }

/-- Begins a transaction.  One that was not committed is forgotten. -/
def begin (h : History) (caret : Nat) (comments : Bool) : History :=
  { h with pending := some ⟨[], caret, caret, comments⟩ }

/-- Adds a change to the transaction that has begun.  Changes without effect are left out. -/
def record (h : History) (c : Change) : History :=
  if c.isEmpty || c.isNoop then h
  else { h with pending := h.pending.map fun t => { t with changes := t.changes ++ [c] } }

/-- Ends the transaction that has begun. -/
def commit (h : History) (caret : Nat) : History :=
  match h.pending with
  | none => h
  | some t =>
    if t.changes.isEmpty then { h with pending := none }
    else
      { h with
        undoStack := ({ t with caretAfter := caret } :: h.undoStack).take h.limit
        redoStack := []
        pending := none }

/-- There is something to undo. -/
def canUndo (h : History) : Bool :=
  !h.undoStack.isEmpty

/-- There is something to redo. -/
def canRedo (h : History) : Bool :=
  !h.redoStack.isEmpty

/-- Takes back the newest transaction.  If the buffer refuses one of its changes the transaction is
lost, and what was taken back of it before stays so. -/
def undo (h : History) (b : Buffer) :
    Except EditError (Option Restored) × History × Buffer :=
  match h.undoStack with
  | [] => (.ok none, h, b)
  | t :: rest =>
    match b.performAll (t.changes.reverse.map Change.inverse) with
    | (.ok (), b') =>
      (.ok (some ⟨t.caretBefore, t.comments⟩),
        { h with undoStack := rest, redoStack := t :: h.redoStack }, b')
    | (.error e, b') => (.error e, { h with undoStack := rest }, b')

/-- Makes the transaction again that was undone last.  If the buffer refuses one of its changes the
transaction is lost, and what was made of it before stays so. -/
def redo (h : History) (b : Buffer) :
    Except EditError (Option Restored) × History × Buffer :=
  match h.redoStack with
  | [] => (.ok none, h, b)
  | t :: rest =>
    match b.performAll t.changes with
    | (.ok (), b') =>
      (.ok (some ⟨t.caretAfter, t.comments⟩),
        { h with undoStack := t :: h.undoStack, redoStack := rest }, b')
    | (.error e, b') => (.error e, { h with redoStack := rest }, b')

end History
end MetaPostEditor
