namespace CodeBuffer

/-- The largest offset or length that a buffer can speak about: positions are 64-bit words. -/
def offsetLimit : Nat := Nat.pow 2 64 - 1

/-- A call that its caller had no right to make. Such a call changes nothing. -/
inductive Fault where
  | nothingToUndo
  | nothingToRedo
  | unopenedUserAction
  | unopenedNotUndoableAction
  | staleWalker
  | reversedInterval (start stop : Nat)
  | offsetOverflow
  deriving DecidableEq, Repr

def Fault.message : Fault → String
  | nothingToUndo => "undo called with nothing to undo"
  | nothingToRedo => "redo called with nothing to redo"
  | unopenedUserAction => "end_user_action without begin_user_action"
  | unopenedNotUndoableAction => "unbalanced end_not_undoable_action"
  | staleWalker => "stale TextIter used after an edit"
  | reversedInterval start stop =>
      "interval start " ++ toString start ++ " > end " ++ toString stop
  | offsetOverflow => "attempt to add with overflow"

/-- Sum of two positions, refused when it is no position any more. -/
def addOffset (a b : Nat) : Except Fault Nat :=
  if a + b ≤ offsetLimit then .ok (a + b) else .error .offsetOverflow

end CodeBuffer
