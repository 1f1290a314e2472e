import CodeBuffer.Bracket
import CodeBuffer.History.Basic
import CodeBuffer.Observer

namespace CodeBuffer

/-- A document with its history and an observer of its edits. Every edit is recorded with the
selection before it, then made, then told to the observer. `actionDepth` counts the open user
actions, of which only the outermost one matters to the history. -/
structure Buffer (H : Type) where
  doc : Document
  history : History
  observer : H
  highlightSyntax : Bool
  highlightBrackets : Bool
  matcher : BracketMatcher
  actionDepth : Nat

/-- The name, and the style, of the tag on a bracket and its partner. -/
def bracketTag : String := "bracket-match"

namespace Buffer

variable {H : Type} [Observer H]

/-- An unmodified buffer, of which the history knows nothing. -/
def ofDocument (d : Document) (h : H) : Buffer H :=
  let (observer, doc) := Observer.attach h d
  { doc, observer, history := .empty, highlightSyntax := true, highlightBrackets := false,
    matcher := {}, actionDepth := 0 }

def new (id : Nat) (t : Text) (h : H) : Buffer H := ofDocument (.new id t) h

/-- Lets the observer act on the document. -/
def notify (b : Buffer H) (f : H → Document → H × Document) : Buffer H :=
  let (observer, doc) := f b.observer b.doc
  { b with observer, doc }

/-- Lets the observer act if it is switched on. -/
def notifyIfOn (b : Buffer H) (f : H → Document → H × Document) : Buffer H :=
  if b.highlightSyntax then b.notify f else b

/-- Changes the document behind the back of history and observer. -/
def modifyDocument (b : Buffer H) (f : Document → Document) : Buffer H :=
  { b with doc := f b.doc }

/-- Changes the observer, and then the document's tags accordingly. -/
def modifyObserver {α : Type} (b : Buffer H) (f : H → α × H) : α × Buffer H :=
  let (a, observer) := f b.observer
  (a, { b with observer }.notifyIfOn Observer.syncTags)

/-! Brackets -/

def clearBracketTag (b : Buffer H) : Buffer H :=
  match b.doc.tags.lookup? bracketTag with
  | some tag => b.modifyDocument (·.clearTag tag)
  | none => b

/-- Tags a bracket and its partner. -/
def tagBrackets (d : Document) (bracket partner : Nat) : Document :=
  let (tag, d) := d.createTag bracketTag (some bracketTag)
  (d.applyTag tag bracket (bracket + 1)).applyTag tag partner (partner + 1)

/-- Looks for the brackets at the cursor and tags them. What the search may visit is highlighted
first, so that strings and comments are known. -/
def updateBrackets (b : Buffer H) : BracketResult × Buffer H :=
  let b := b.clearBracketTag
  let cursor := b.doc.cursor
  let b := b.notifyIfOn fun h d => Observer.updateHighlight h d (cursor - b.matcher.maxChars)
    (min (cursor + b.matcher.maxChars) d.length) true
  let result := b.matcher.findMatch b.doc cursor
  match result with
  | .found bracket partner => (result, b.modifyDocument (tagBrackets · bracket partner))
  | _ => (result, b)

/-- Follows the cursor with the bracket tag, but not while a user action is open. -/
def cursorChanged (b : Buffer H) : Buffer H :=
  if b.highlightBrackets ∧ b.actionDepth = 0 then b.updateBrackets.2 else b

/-! Editing -/

def markModified (b : Buffer H) : Buffer H :=
  if b.doc.modified then b
  else { b with doc := b.doc.setModified true, history := b.history.modifiedChanged true }

def insert (b : Buffer H) (o : Nat) (t : Text) : Buffer H × Except EditError Unit :=
  match b.doc.checkRange o o with
  | .error e => (b, .error e)
  | .ok () =>
    if t.isEmpty then (b, .ok ())
    else
      let b := { b with history := b.history.recordInsertAt o t b.doc.selection }
      match b.doc.insert o t with
      | (doc, .error e) => ({ b with doc }, .error e)
      | (doc, .ok ()) =>
        let b := { b with doc }.notifyIfOn fun h d => Observer.textInserted h d o t.length
        (b.markModified.cursorChanged, .ok ())

/-- Removes a range and hands back what it held. -/
def delete (b : Buffer H) (start stop : Nat) : Buffer H × Except EditError Text :=
  match b.doc.checkRange start stop with
  | .error e => (b, .error e)
  | .ok () =>
    if start = stop then (b, .ok [])
    else
      let t := b.doc.text.slice start stop
      let b := { b with history := b.history.recordDeleteAt start stop t b.doc.selection }
      match b.doc.delete start stop with
      | (doc, .error e) => ({ b with doc }, .error e)
      | (doc, .ok removed) =>
        let b := { b with doc }.notifyIfOn fun h d => Observer.textDeleted h d start (stop - start)
        (b.markModified.cursorChanged, .ok removed)

/-- Deletes a range; `false` if there is no such range. -/
def tryDelete (b : Buffer H) (start stop : Nat) : Bool × Buffer H :=
  match b.delete start stop with
  | (b, .ok _) => (true, b)
  | (b, .error _) => (false, b)

def tryInsert (b : Buffer H) (o : Nat) (t : Text) : Buffer H := (b.insert o t).1

def beginUserAction (b : Buffer H) : Buffer H :=
  { b with
    actionDepth := b.actionDepth + 1
    history := if b.actionDepth = 0 then b.history.beginUserAction else b.history }

/-- Ends the innermost user action, of which there is one. -/
def finishUserAction (b : Buffer H) : Buffer H :=
  if b.actionDepth = 1 then
    { b with actionDepth := 0, history := b.history.finishUserAction }.cursorChanged
  else { b with actionDepth := b.actionDepth - 1 }

def endUserAction (b : Buffer H) : Except Fault (Buffer H) :=
  if b.actionDepth = 0 then .error .unopenedUserAction else .ok b.finishUserAction

/-- Types a text at the cursor, in the place of what is selected. -/
def type (b : Buffer H) (t : Text) : Buffer H :=
  let b := b.beginUserAction
  let b := match b.doc.selectionBounds? with
    | some (start, stop) => (b.tryDelete start stop).2
    | none => b
  (b.tryInsert b.doc.cursor t).finishUserAction

def deleteAsAction (b : Buffer H) (start stop : Nat) : Bool × Buffer H :=
  let (done, b) := b.beginUserAction.tryDelete start stop
  (done, b.finishUserAction)

def deleteSelection (b : Buffer H) : Bool × Buffer H :=
  match b.doc.selectionBounds? with
  | some (start, stop) => b.deleteAsAction start stop
  | none => (false, b)

/-- Deletes what is selected, or else the character before the cursor. -/
def backspace (b : Buffer H) : Bool × Buffer H :=
  if b.doc.selectionBounds?.isSome then b.deleteSelection
  else if b.doc.cursor = 0 then (false, b)
  else b.deleteAsAction (b.doc.cursor - 1) b.doc.cursor

/-- Deletes what is selected, or else the character behind the cursor. -/
def deleteKey (b : Buffer H) : Bool × Buffer H :=
  if b.doc.selectionBounds?.isSome then b.deleteSelection
  else if b.doc.length ≤ b.doc.cursor then (false, b)
  else b.deleteAsAction b.doc.cursor (b.doc.cursor + 1)

def placeCursor (b : Buffer H) (o : Nat) : Buffer H :=
  (b.modifyDocument (·.placeCursor o)).cursorChanged

def selectRange (b : Buffer H) (insert bound : Nat) : Buffer H :=
  (b.modifyDocument (·.selectRange insert bound)).cursorChanged

/-! History -/

/-- Replays a step and tells the observer of the edit, unless the document refuses it. -/
def replay (b : Buffer H) (step : ReplayCommand) : Buffer H :=
  match step with
  | .insert o t =>
    match b.doc.insert o t with
    | (doc, .ok ()) => { b with doc }.notifyIfOn fun h d => Observer.textInserted h d o t.length
    | (doc, .error _) => { b with doc }
  | .delete start stop =>
    match b.doc.delete start stop with
    | (doc, .ok _) =>
      { b with doc }.notifyIfOn fun h d => Observer.textDeleted h d start (stop - start)
    | (doc, .error _) => { b with doc }
  | other => b.modifyDocument (·.replay other)

def replayAll (b : Buffer H) (steps : List ReplayCommand) (history : History) : Buffer H :=
  { steps.foldl replay b with history }.cursorChanged

def undo (b : Buffer H) : Except Fault (Buffer H) :=
  b.history.undo.map fun (steps, history) => b.replayAll steps history

def redo (b : Buffer H) : Except Fault (Buffer H) :=
  b.history.redo.map fun (steps, history) => b.replayAll steps history

def beginNotUndoable (b : Buffer H) : Buffer H :=
  { b with history := b.history.beginNotUndoable }

def endNotUndoable (b : Buffer H) : Except Fault (Buffer H) :=
  b.history.endNotUndoable.map fun history =>
    { b with history := history.modifiedChanged b.doc.modified }

/-- Limits the number of steps. A history that begins to record is told of the document's flag. -/
def setUndoLimit (b : Buffer H) (limit : Int) : Buffer H :=
  let history := b.history.setLimit limit
  { b with history :=
      if !b.history.isRecording && history.isRecording then
        history.modifiedChanged b.doc.modified
      else history }

/-- Sets the flag; to clear it marks the text as saved. -/
def setModified (b : Buffer H) (modified : Bool) : Buffer H :=
  if b.doc.modified = modified then b
  else
    { b with
      doc := b.doc.setModified modified
      history := b.history.modifiedChanged modified }

/-! Highlighting -/

def setHighlightSyntax (b : Buffer H) (on : Bool) : Buffer H :=
  if b.highlightSyntax = on then b
  else
    { b with highlightSyntax := on }.notify
      (if on then Observer.attach else Observer.detach)

def setHighlightBrackets (b : Buffer H) (on : Bool) : Buffer H :=
  if b.highlightBrackets = on then b
  else
    let b := { b with highlightBrackets := on }
    if on then b.updateBrackets.2 else b.clearBracketTag

def setMatcher (b : Buffer H) (m : BracketMatcher) : Buffer H := { b with matcher := m }

def setScheme (b : Buffer H) (s : Option StyleScheme) : Buffer H :=
  (b.modifyDocument (·.setScheme s)).notify Observer.schemeChanged

def ensureHighlighted (b : Buffer H) (start stop : Nat) : Buffer H :=
  b.notifyIfOn fun h d => Observer.updateHighlight h d start stop true

def requestHighlight (b : Buffer H) (start stop : Nat) : Buffer H :=
  b.notifyIfOn fun h d => Observer.updateHighlight h d start stop false

def hasPendingWork (b : Buffer H) : Bool :=
  b.highlightSyntax && Observer.hasPendingWork b.observer

/-- Lets the observer do a piece of its deferred work and tells whether more is left. -/
def runIdleSlice (b : Buffer H) : Bool × Buffer H :=
  if b.highlightSyntax then
    let (more, observer, doc) := Observer.runIdleSlice b.observer b.doc
    (more, { b with observer, doc })
  else (false, b)

/-- Idle slices until none is left; `fuel` bounds their number. -/
def idleLoop (b : Buffer H) : Nat → Buffer H
  | 0 => b
  | fuel + 1 =>
    match b.runIdleSlice with
    | (true, b) => b.idleLoop fuel
    | (false, b) => b

/-- Idle slices until no work is left. Each of them analyses a line at least. -/
def runUntilIdle (b : Buffer H) : Buffer H := b.idleLoop (b.doc.length + 2)

end Buffer
end CodeBuffer
