import CodeBuffer.History.Action

namespace CodeBuffer

/-- The recorded steps, of which the first `location` are done. `pending` gathers the edits of the
open user action, `saved` is the location at which the text was last saved if it can still be
reached, and a negative limit is no limit. -/
structure History where
  steps : List Step
  location : Nat
  pending : Option Step
  saved : Option Nat
  inUserAction : Bool
  suspensions : Nat
  limit : Int
  deriving DecidableEq, Repr

namespace History

def empty : History :=
  { steps := [], location := 0, pending := none, saved := some 0, inUserAction := false,
    suspensions := 0, limit := -1 }

def canUndo (h : History) : Bool := !h.inUserAction && decide (0 < h.location)

def canRedo (h : History) : Bool := !h.inUserAction && decide (h.location < h.steps.length)

def undoDepth (h : History) : Nat := h.location

def redoDepth (h : History) : Nat := h.steps.length - h.location

def isRecording (h : History) : Bool := h.suspensions == 0 && h.limit != 0

/-- Drops the steps that could be redone. -/
def forgetUndone (h : History) : History :=
  if h.steps.length ≤ h.location then h
  else { h with
    saved := h.saved.filter fun s => decide (s ≤ h.location)
    steps := h.steps.take h.location }

def dropNewest (h : History) : History :=
  { h with
    saved := if h.saved = some h.steps.length then none else h.saved
    steps := h.steps.dropLast
    location := min h.location (h.steps.length - 1) }

def dropOldest (h : History) : History :=
  { h with
    steps := h.steps.tail
    location := h.location - 1
    saved := h.saved.bind fun s => if s = 0 then none else some (s - 1) }

/-- Drops one step, of those to redo while there are any. -/
def dropOne (h : History) : History :=
  if h.location < h.steps.length then h.dropNewest else h.dropOldest

/-- Forgets every step. The saved state is kept in mind only if it is the present one. -/
def clear (h : History) : History :=
  { h with
    saved := (h.saved.filter (· == h.location)).map fun _ => 0
    steps := []
    location := 0
    pending := none }

/-- Brings the number of steps down to the limit. -/
def trim (h : History) : History :=
  if h.limit < 0 then h
  else if h.limit = 0 then h.clear
  else (h.steps.length - h.limit.toNat).repeat dropOne h

/-- Makes the gathered edits a step of their own, or part of the newest step. The step at which
the text was saved stays as it is. -/
def closePending (h : History) : History :=
  match h.pending with
  | none => h
  | some step =>
    let h := { h with pending := none }
    if step.actions.isEmpty then h
    else
      let h := h.forgetUndone
      match h.steps.getLast? with
      | none => trim { h with steps := [step], location := 1 }
      | some last =>
        let before := h.steps.dropLast
        let merged := if h.saved = some h.steps.length then none else last.merge? step
        match merged with
        | some both => { h with steps := before ++ [both] }
        | none => trim { h with
            steps := before ++ [{ last with closed := true }, step]
            location := h.steps.length + 1 }

def push (h : History) (a : Action) : History :=
  let h := { h with pending := some ((h.pending.getD ⟨[], false⟩).push a) }
  if h.inUserAction then h else h.closePending

/-- Refuses an insertion to be recorded whose text would end beyond the last position. -/
def checkInsert (h : History) (o : Nat) (t : Text) : Except Fault Unit :=
  if !h.isRecording || t.isEmpty then .ok () else (addOffset o t.length).map fun _ => ()

/-- Records an insertion; without text there is nothing to record. -/
def recordInsert (h : History) (o : Nat) (t : Text) (selection : Option (Nat × Nat)) : History :=
  if !h.isRecording || t.isEmpty then h
  else h.push ⟨.insertion, o, o + t.length, t, selection⟩

/-- Records an insertion, with the selection only if it is a cursor at that place. -/
def recordInsertAt (h : History) (o : Nat) (t : Text) (selection : Nat × Nat) : History :=
  h.recordInsert o t (if selection = (o, o) then some selection else none)

def recordDelete (h : History) (start stop : Nat) (t : Text) (selection : Option (Nat × Nat)) :
    History :=
  if !h.isRecording || decide (stop ≤ start) then h
  else h.push ⟨.deletion, start, stop, t, selection⟩

/-- Records a deletion by the delete key, if `forward`, or else by backspace. -/
def recordKeyDelete (h : History) (start stop : Nat) (t : Text) (forward : Bool) : History :=
  h.recordDelete start stop t (some (if forward then (start, start) else (stop, stop)))

/-- Records a deletion, with the selection only if both its ends are ends of the range. -/
def recordDeleteAt (h : History) (start stop : Nat) (t : Text) (selection : Nat × Nat) : History :=
  let onEdge (o : Nat) : Bool := o == start || o == stop
  h.recordDelete start stop t
    (if onEdge selection.1 && onEdge selection.2 then some selection else none)

def beginUserAction (h : History) : History := { h with inUserAction := true }

def finishUserAction (h : History) : History := { h.closePending with inUserAction := false }

def endUserAction (h : History) : Except Fault History :=
  if h.inUserAction then .ok h.finishUserAction else .error .unopenedUserAction

def beginNotUndoable (h : History) : History := { h with suspensions := h.suspensions + 1 }

/-- Ends a suspension. The end of the outermost one clears the history. -/
def endNotUndoable (h : History) : Except Fault History :=
  match h.suspensions with
  | 0 => .error .unopenedNotUndoableAction
  | 1 => .ok { h with suspensions := 0 }.clear
  | n + 2 => .ok { h with suspensions := n + 1 }

def hasPending (h : History) : Bool := h.pending.any fun g => !g.actions.isEmpty

/-- Takes note of the document's flag. A save within a user action splits it. -/
def modifiedChanged (h : History) (modified : Bool) : History :=
  if !h.isRecording then h
  else if modified then
    if h.saved = some h.location ∧ !h.hasPending then { h with saved := none } else h
  else
    let h := if h.inUserAction then h.closePending else h
    { h with saved := some h.location }

def setLimit (h : History) (limit : Int) : History :=
  let limit := max limit (-1)
  if h.limit = limit then h else { h with limit }.trim

/-- The flag to set when the location moves away from, or onto, the saved one. -/
def flagCommand (h : History) (old new : Nat) : List ReplayCommand :=
  match h.saved with
  | none => []
  | some s =>
    if old = s then [.setModified true] else if new = s then [.setModified false] else []

/-- Takes back the newest step that is done. -/
def undo (h : History) : Except Fault (List ReplayCommand × History) :=
  if h.canUndo then
    let commands := match h.steps[h.location - 1]? with
      | none => []
      | some step =>
        step.actions.reverse.map Action.undo ++ h.flagCommand h.location (h.location - 1) ++
          (step.actions.head?.map Action.selectionBefore).toList
    .ok (commands, { h with location := h.location - 1 })
  else .error .nothingToUndo

/-- Does the oldest step again that was taken back. -/
def redo (h : History) : Except Fault (List ReplayCommand × History) :=
  if h.canRedo then
    let commands := match h.steps[h.location]? with
      | none => []
      | some step =>
        step.actions.map Action.redo ++ h.flagCommand h.location (h.location + 1) ++
          (step.actions.head?.map Action.selectionAfter).toList
    .ok (commands, { h with location := h.location + 1 })
  else .error .nothingToRedo

end History
end CodeBuffer
