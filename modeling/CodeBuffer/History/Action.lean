import CodeBuffer.Document.Basic

namespace CodeBuffer

/-- How a deletion came about, told from the selection at that time. -/
inductive DeletionKind where
  | selection
  | backspace
  | deleteKey
  | programmatic
  deriving DecidableEq, Repr

/-- A cursor at the end of what is deleted means backspace, one at its start the delete key. -/
def DeletionKind.infer (start stop : Nat) : Option (Nat × Nat) → DeletionKind
  | none => programmatic
  | some (insert, bound) =>
    if insert = stop ∧ bound = stop then backspace
    else if insert = start ∧ bound = start then deleteKey
    else selection

/-- What a history asks of the document that it is replayed onto. -/
inductive ReplayCommand where
  | insert (offset : Nat) (text : Text)
  | delete (start stop : Nat)
  | placeCursor (offset : Nat)
  | selectRange (insert bound : Nat)
  | setModified (modified : Bool)
  deriving DecidableEq, Repr

/-- Replay onto a document; an edit that the document refuses is left out. -/
def Document.replay (d : Document) : ReplayCommand → Document
  | .insert o t => (d.insert o t).1
  | .delete s e => (d.delete s e).1
  | .placeCursor o => d.placeCursor o
  | .selectRange i b => d.selectRange i b
  | .setModified b => d.setModified b

inductive ActionKind where
  | insertion
  | deletion
  deriving DecidableEq, Repr

/-- One recorded edit. The selection is kept where it mattered to the edit. -/
structure Action where
  kind : ActionKind
  start : Nat
  stop : Nat
  text : Text
  selection : Option (Nat × Nat)
  deriving DecidableEq, Repr

namespace Action

def deletionKind (a : Action) : DeletionKind := .infer a.start a.stop a.selection

def undo (a : Action) : ReplayCommand :=
  match a.kind with
  | .insertion => .delete a.start a.stop
  | .deletion => .insert a.start a.text

def redo (a : Action) : ReplayCommand :=
  match a.kind with
  | .insertion => .insert a.start a.text
  | .deletion => .delete a.start a.stop

/-- The selection to show once the action is undone. -/
def selectionBefore (a : Action) : ReplayCommand :=
  match a.kind, a.selection with
  | .insertion, _ => .placeCursor a.start
  | .deletion, some (insert, bound) => .selectRange insert bound
  | .deletion, none => .placeCursor a.stop

/-- The selection to show once the action is done again. -/
def selectionAfter (a : Action) : ReplayCommand :=
  match a.kind with
  | .insertion => .placeCursor a.stop
  | .deletion => .placeCursor a.start

def isBlank (c : Char) : Bool := c == ' ' || c == '\t'

/-- Whether a run of characters goes on from `c` to `d`: a blank after something else begins a new
one. -/
def continues (c d : Char) : Bool := !(isBlank d && !isBlank c)

def continuesBetween (before after : Text) : Bool :=
  match before.getLast?, after.head? with
  | some c, some d => continues c d
  | _, _ => false

/-- Two edits as one, where the later one, of a single character, carries the earlier one on. -/
def merge? (a b : Action) : Option Action :=
  match a.kind, b.kind with
  | .insertion, .insertion =>
    if a.stop = b.start ∧ continuesBetween a.text b.text then
      some { a with text := a.text ++ b.text, stop := b.stop }
    else none
  | .deletion, .deletion =>
    match a.deletionKind, b.deletionKind with
    | .deleteKey, .deleteKey =>
      if a.start = b.start ∧ continuesBetween a.text b.text then
        some { a with text := a.text ++ b.text, stop := a.stop + (b.stop - b.start) }
      else none
    | .backspace, .backspace =>
      match b.text.head?, a.text.head? with
      | some new, some old =>
        if a.start = b.stop ∧ continues new old then
          some { a with text := b.text ++ a.text, start := b.start }
        else none
      | _, _ => none
    | _, _ => none
  | _, _ => none

end Action

/-- What undo and redo take at once. A closed step does not grow any more. -/
structure Step where
  actions : List Action
  closed : Bool
  deriving DecidableEq, Repr

namespace Step

/-- Two steps as one, if each is a single edit and neither is closed. -/
def merge? (g h : Step) : Option Step :=
  match g.actions, h.actions with
  | [a], [b] =>
    if g.closed || h.closed then none else (a.merge? b).map fun c => { g with actions := [c] }
  | _, _ => none

/-- Adds an edit. Several characters at once, or a line feed, close the step. -/
def push (g : Step) (a : Action) : Step :=
  ⟨g.actions ++ [a], g.closed || decide (1 < a.stop - a.start) || a.text == ['\n']⟩

end Step

end CodeBuffer
