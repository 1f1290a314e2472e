import CodeBuffer.Proofs.History.Straying

namespace CodeBuffer

/-- One observer within another, which passes on to it whatever it is asked. -/
structure Observer.Within {G H : Type} [Observer G] [Observer H] (p : G → H) : Prop where
  attach : ∀ g d, Observer.attach (p g) d = (Observer.attach g d).map p id
  detach : ∀ g d, Observer.detach (p g) d = (Observer.detach g d).map p id
  textInserted : ∀ g d o n,
    Observer.textInserted (p g) d o n = (Observer.textInserted g d o n).map p id
  textDeleted : ∀ g d o n,
    Observer.textDeleted (p g) d o n = (Observer.textDeleted g d o n).map p id
  schemeChanged : ∀ g d, Observer.schemeChanged (p g) d = (Observer.schemeChanged g d).map p id
  syncTags : ∀ g d, Observer.syncTags (p g) d = (Observer.syncTags g d).map p id
  updateHighlight : ∀ g d start stop synchronous,
    Observer.updateHighlight (p g) d start stop synchronous =
      (Observer.updateHighlight g d start stop synchronous).map p id
  runIdleSlice : ∀ g d,
    Observer.runIdleSlice (p g) d = (Observer.runIdleSlice g d).map id (Prod.map p id)

variable {G H : Type}

/-- The command for a buffer whose observer holds another one, given what becomes of the changes to
that one. -/
def Command.lift (l : (H → H) → G → G) : Command H → Command G
  | .insert o t => .insert o t
  | .delete start stop => .delete start stop
  | .type t => .type t
  | .backspace => .backspace
  | .deleteKey => .deleteKey
  | .deleteSelection => .deleteSelection
  | .placeCursor o => .placeCursor o
  | .selectRange cursor bound => .selectRange cursor bound
  | .beginUserAction => .beginUserAction
  | .endUserAction => .endUserAction
  | .undo => .undo
  | .redo => .redo
  | .setModified modified => .setModified modified
  | .setUndoLimit limit => .setUndoLimit limit
  | .beginNotUndoable => .beginNotUndoable
  | .endNotUndoable => .endNotUndoable
  | .setHighlightSyntax on => .setHighlightSyntax on
  | .setHighlightBrackets on => .setHighlightBrackets on
  | .updateBrackets => .updateBrackets
  | .setMatcher m => .setMatcher m
  | .setScheme s => .setScheme s
  | .ensureHighlighted start stop => .ensureHighlighted start stop
  | .requestHighlight start stop => .requestHighlight start stop
  | .runIdleSlice => .runIdleSlice
  | .modifyObserver f => .modifyObserver (l f)

def CourseEvent.lift (l : (H → H) → G → G) : CourseEvent H → CourseEvent G
  | .command c => .command (c.lift l)
  | .adjust f keeps => .adjust f keeps

namespace Buffer

/-- A buffer goes through what happens to it. -/
def undergo [Observer H] (b : Buffer H) : CourseEvent H → Buffer H
  | .command c => b.perform c
  | .adjust f _ => b.modifyDocument f

def undergoAll [Observer H] (b : Buffer H) (es : List (CourseEvent H)) : Buffer H :=
  es.foldl undergo b

/-- The buffer with another observer in place of its own. -/
def through (p : G → H) (b : Buffer G) : Buffer H := { b with observer := p b.observer }

section
variable {p : G → H} (b : Buffer G) {f : G → Document → G × Document}
  {f' : H → Document → H × Document}

theorem doc_through : (b.through p).doc = b.doc := rfl

theorem through_notify (hf : ∀ g d, f' (p g) d = (f g d).map p id) :
    (b.notify f).through p = (b.through p).notify f' := by
  simp only [notify, through, hf]
  rfl

theorem through_notifyIfOn (hf : ∀ g d, f' (p g) d = (f g d).map p id) :
    (b.notifyIfOn f).through p = (b.through p).notifyIfOn f' := by
  rw [notifyIfOn, notifyIfOn, apply_ite (through p), b.through_notify hf]
  rfl

theorem through_clearBracketTag :
    b.clearBracketTag.through p = (b.through p).clearBracketTag := by
  unfold clearBracketTag
  rw [doc_through]
  cases b.doc.tags.lookup? bracketTag <;> rfl

theorem through_tagFound (r : BracketResult) :
    (b.tagFound r).through p = (b.through p).tagFound r := by
  cases r <;> rfl

theorem through_beginUserAction :
    b.beginUserAction.through p = (b.through p).beginUserAction := rfl

theorem through_markModified : b.markModified.through p = (b.through p).markModified := by
  rw [markModified, markModified, apply_ite (through p)]
  rfl

end

variable [Observer G] [Observer H] {p : G → H}

section
variable (hp : Observer.Within p)

include hp

theorem through_ofDocument (d : Document) (g : G) :
    (ofDocument d g).through p = ofDocument d (p g) := by
  simp only [ofDocument, hp.attach]
  rfl

variable (b : Buffer G)

theorem through_searched : b.searched.through p = (b.through p).searched := by
  rw [searched, searched, ← through_clearBracketTag]
  exact through_notifyIfOn _ fun g d => hp.updateHighlight g d _ _ true

theorem through_updateBrackets :
    b.updateBrackets.2.through p = (b.through p).updateBrackets.2 := by
  rw [updateBrackets_snd, updateBrackets_snd, through_tagFound, ← through_searched hp]
  rfl

theorem through_cursorChanged : b.cursorChanged.through p = (b.through p).cursorChanged := by
  rw [cursorChanged, cursorChanged, apply_ite (through p), through_updateBrackets hp]
  rfl

theorem through_insertedBare (o : Nat) (t : Text) :
    (b.insertedBare o t).through p = (b.through p).insertedBare o t :=
  through_notifyIfOn _ fun g d => hp.textInserted g d o t.length

theorem through_deletedBare (start stop : Nat) :
    (b.deletedBare start stop).through p = (b.through p).deletedBare start stop :=
  through_notifyIfOn _ fun g d => hp.textDeleted g d start (stop - start)

theorem through_tryInsert (o : Nat) (t : Text) :
    (b.tryInsert o t).through p = (b.through p).tryInsert o t := by
  rw [tryInsert_eq, tryInsert_eq, apply_ite (through p), through_cursorChanged hp,
    through_markModified, through_insertedBare hp]
  rfl

theorem through_tryDelete (start stop : Nat) :
    (b.tryDelete start stop).2.through p = ((b.through p).tryDelete start stop).2 := by
  rw [tryDelete_eq, tryDelete_eq, apply_ite (through p), through_cursorChanged hp,
    through_markModified, through_deletedBare hp]
  rfl

theorem through_finishUserAction :
    b.finishUserAction.through p = (b.through p).finishUserAction := by
  rw [finishUserAction, finishUserAction, apply_ite (through p), through_cursorChanged hp]
  rfl

theorem through_withoutSelection :
    b.withoutSelection.through p = (b.through p).withoutSelection := by
  unfold withoutSelection
  rw [doc_through]
  cases b.doc.selectionBounds? with
  | none => rfl
  | some bounds => exact through_tryDelete hp b _ _

theorem through_type (t : Text) : (b.type t).through p = (b.through p).type t := by
  rw [type_eq, type_eq, through_finishUserAction hp, through_tryInsert hp,
    ← through_beginUserAction, ← through_withoutSelection hp]
  rfl

theorem through_deleteAsAction (start stop : Nat) :
    (b.deleteAsAction start stop).2.through p = ((b.through p).deleteAsAction start stop).2 := by
  change (b.beginUserAction.tryDelete start stop).2.finishUserAction.through p = _
  rw [through_finishUserAction hp, through_tryDelete hp]
  rfl

theorem through_deleteSelection :
    b.deleteSelection.2.through p = (b.through p).deleteSelection.2 := by
  unfold deleteSelection
  rw [doc_through]
  cases b.doc.selectionBounds? with
  | none => rfl
  | some bounds => exact through_deleteAsAction hp b _ _

theorem through_backspace : b.backspace.2.through p = (b.through p).backspace.2 := by
  simp only [backspace, apply_ite Prod.snd, apply_ite (through p), through_deleteSelection hp,
    through_deleteAsAction hp]
  rfl

theorem through_deleteKey : b.deleteKey.2.through p = (b.through p).deleteKey.2 := by
  simp only [deleteKey, apply_ite Prod.snd, apply_ite (through p), through_deleteSelection hp,
    through_deleteAsAction hp]
  rfl

theorem through_replay (step : ReplayCommand) :
    (b.replay step).through p = (b.through p).replay step := by
  cases step with
  | insert o t =>
    rw [replay_insert, replay_insert, apply_ite (through p)]
    exact congrArg (ite _ · _) (through_notifyIfOn _ fun g d => hp.textInserted g d o t.length)
  | delete start stop =>
    rw [replay_delete, replay_delete, apply_ite (through p)]
    exact congrArg (ite _ · _)
      (through_notifyIfOn _ fun g d => hp.textDeleted g d start (stop - start))
  | placeCursor o => rfl
  | selectRange insert bound => rfl
  | setModified modified => rfl

theorem through_replayAll (steps : List ReplayCommand) (history : History) :
    (b.replayAll steps history).through p = (b.through p).replayAll steps history := by
  have hfold (c : Buffer G) :
      (steps.foldl replay c).through p = steps.foldl replay (c.through p) := by
    induction steps generalizing c with
    | nil => rfl
    | cons step steps ih => rw [List.foldl_cons, ih, through_replay hp, List.foldl_cons]
  rw [replayAll, replayAll, through_cursorChanged hp, ← hfold]
  rfl

theorem through_setHighlightSyntax (on : Bool) :
    (b.setHighlightSyntax on).through p = (b.through p).setHighlightSyntax on := by
  rw [setHighlightSyntax, setHighlightSyntax, apply_ite (through p)]
  cases on with
  | true => exact congrArg (ite _ _) (through_notify _ hp.attach)
  | false => exact congrArg (ite _ _) (through_notify _ hp.detach)

theorem through_setHighlightBrackets (on : Bool) :
    (b.setHighlightBrackets on).through p = (b.through p).setHighlightBrackets on := by
  rw [setHighlightBrackets, setHighlightBrackets, apply_ite (through p)]
  cases on with
  | true => exact congrArg (ite _ _) (through_updateBrackets hp _)
  | false => exact congrArg (ite _ _) (through_clearBracketTag _)

theorem through_runIdleSlice : b.runIdleSlice.2.through p = (b.through p).runIdleSlice.2 := by
  simp only [runIdleSlice, apply_ite Prod.snd, apply_ite (through p)]
  simp only [through, hp.runIdleSlice]
  rfl

variable {l : (H → H) → G → G} (hl : ∀ f g, p (l f g) = f (p g))

include hl

theorem through_modifyObserver (f : H → H) :
    (b.modifyObserver fun g => ((), l f g)).2.through p =
      ((b.through p).modifyObserver fun h => ((), f h)).2 := by
  have first : (through p { b with observer := l f b.observer }) =
      { b.through p with observer := f (b.through p).observer } := by
    simp only [through, hl]
  change (notifyIfOn { b with observer := l f b.observer } Observer.syncTags).through p = _
  rw [through_notifyIfOn _ hp.syncTags, first]
  rfl

/-- An observer within the buffer's own sees the commands as it would by itself. -/
theorem through_perform (c : Command H) :
    (b.perform (c.lift l)).through p = (b.through p).perform c := by
  cases c with
  | insert o t => exact through_tryInsert hp b o t
  | delete start stop => exact through_tryDelete hp b start stop
  | type t => exact through_type hp b t
  | backspace => exact through_backspace hp b
  | deleteKey => exact through_deleteKey hp b
  | deleteSelection => exact through_deleteSelection hp b
  | placeCursor o => exact through_cursorChanged hp _
  | selectRange insert bound => exact through_cursorChanged hp _
  | beginUserAction => rfl
  | endUserAction =>
    rw [Command.lift, perform_endUserAction, perform_endUserAction, apply_ite (through p),
      through_finishUserAction hp]
    rfl
  | undo =>
    change ((b.history.undo.map _).toOption.getD b).through p =
      (b.history.undo.map _).toOption.getD (b.through p)
    cases b.history.undo with
    | error fault => rfl
    | ok r => exact through_replayAll hp b r.1 r.2
  | redo =>
    change ((b.history.redo.map _).toOption.getD b).through p =
      (b.history.redo.map _).toOption.getD (b.through p)
    cases b.history.redo with
    | error fault => rfl
    | ok r => exact through_replayAll hp b r.1 r.2
  | setModified modified =>
    rw [Command.lift, perform, perform, setModified, setModified, apply_ite (through p)]
    rfl
  | setUndoLimit limit => rfl
  | beginNotUndoable => rfl
  | endNotUndoable =>
    change ((b.history.endNotUndoable.map _).toOption.getD b).through p =
      (b.history.endNotUndoable.map _).toOption.getD (b.through p)
    cases b.history.endNotUndoable <;> rfl
  | setHighlightSyntax on => exact through_setHighlightSyntax hp b on
  | setHighlightBrackets on => exact through_setHighlightBrackets hp b on
  | updateBrackets => exact through_updateBrackets hp b
  | setMatcher m => rfl
  | setScheme s => exact through_notify _ hp.schemeChanged
  | ensureHighlighted start stop =>
    exact through_notifyIfOn _ fun g d => hp.updateHighlight g d start stop true
  | requestHighlight start stop =>
    exact through_notifyIfOn _ fun g d => hp.updateHighlight g d start stop false
  | runIdleSlice => exact through_runIdleSlice hp b
  | modifyObserver f => exact through_modifyObserver hp b hl f

theorem through_undergoAll (es : List (CourseEvent H)) :
    (b.undergoAll (es.map (CourseEvent.lift l))).through p = (b.through p).undergoAll es := by
  induction es generalizing b with
  | nil => rfl
  | cons e es ih =>
    have hfirst : (b.undergo (e.lift l)).through p = (b.through p).undergo e := by
      cases e with
      | command c => exact through_perform hp b hl c
      | adjust f keeps => rfl
    rw [undergoAll, List.map_cons, List.foldl_cons, ← undergoAll, ih, hfirst]
    rfl

end

end Buffer
end CodeBuffer
