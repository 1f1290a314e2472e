import CodeBuffer.Proofs.History.Attempts
import CodeBuffer.Proofs.History.Substantial
import CodeBuffer.Proofs.Observing.Through
import CodeBuffer.Proofs.Plain.Viewing

namespace CodeBuffer

/-- An observer that does not edit the text. -/
class LeavesText (H : Type) [Observer H] : Prop where
  attach : ∀ (h : H) (d : Document), (Observer.attach h d).2.text = d.text
  detach : ∀ (h : H) (d : Document), (Observer.detach h d).2.text = d.text
  textInserted : ∀ (h : H) (d : Document) (o n : Nat),
    (Observer.textInserted h d o n).2.text = d.text
  textDeleted : ∀ (h : H) (d : Document) (o n : Nat),
    (Observer.textDeleted h d o n).2.text = d.text
  schemeChanged : ∀ (h : H) (d : Document), (Observer.schemeChanged h d).2.text = d.text
  syncTags : ∀ (h : H) (d : Document), (Observer.syncTags h d).2.text = d.text
  updateHighlight : ∀ (h : H) (d : Document) (start stop : Nat) (synchronous : Bool),
    (Observer.updateHighlight h d start stop synchronous).2.text = d.text
  runIdleSlice : ∀ (h : H) (d : Document), (Observer.runIdleSlice h d).2.2.text = d.text

instance {H : Type} [Observer H] [Quiet H] : LeavesText H where
  attach h d := (Quiet.attach h d).text_eq
  detach h d := (Quiet.detach h d).text_eq
  textInserted h d o n := (Quiet.textInserted h d o n).text_eq
  textDeleted h d o n := (Quiet.textDeleted h d o n).text_eq
  schemeChanged h d := (Quiet.schemeChanged h d).text_eq
  syncTags h d := (Quiet.syncTags h d).text_eq
  updateHighlight h d start stop synchronous :=
    (Quiet.updateHighlight h d start stop synchronous).text_eq
  runIdleSlice h d := (Quiet.runIdleSlice h d).text_eq

namespace Edit

def length : Edit → Nat
  | insertion _ n => n
  | deletion _ n => n

/-- A text after the edit. What is inserted is read off another text, where it stands already. -/
def redo (t after : Text) : Edit → Text
  | insertion o n => t.take o ++ after.slice o (o + n) ++ t.drop o
  | deletion o n => t.take o ++ t.drop (o + n)

theorem Turns.redo_eq {e : Edit} {t t' : Text} (h : e.Turns t t') : e.redo t t' = t' := by
  cases e with
  | insertion o n =>
    obtain ⟨ho, s, rfl, rfl⟩ := h
    have hfirst : (t.take o ++ s).length = o + s.length := by
      rw [List.length_append, List.length_take_of_le ho]
    rw [redo, Text.slice, ← hfirst, List.take_left', List.drop_left' (List.length_take_of_le ho)]
    rfl
  | deletion o n => exact h.2.symm

end Edit

/-- What an observer is told of the text. -/
inductive Notice where
  | attached
  | detached
  | edited (e : Edit)
  deriving DecidableEq, Repr

/-- An observer with minutes of what it was told of the text, each notice with the text at that
time, latest first. -/
structure Scribe (H : Type) where
  observer : H
  minutes : List (Notice × Text)

namespace Scribe

variable {H : Type}

def start (h : H) : Scribe H := ⟨h, []⟩

def amend (f : H → H) (s : Scribe H) : Scribe H := { s with observer := f s.observer }

def note (s : Scribe H) (n : Notice) (d : Document) : Scribe H :=
  { s with minutes := (n, d.text) :: s.minutes }

/-- Passes a call on. -/
def relay (s : Scribe H) (d : Document) (f : H → Document → H × Document) : Scribe H × Document :=
  (f s.observer d).map (fun observer => { s with observer }) id

instance [Observer H] : Observer (Scribe H) where
  attach s d := (s.note .attached d).relay d Observer.attach
  detach s d := (s.note .detached d).relay d Observer.detach
  textInserted s d o n :=
    (s.note (.edited (.insertion o n)) d).relay d fun h d => Observer.textInserted h d o n
  textDeleted s d o n :=
    (s.note (.edited (.deletion o n)) d).relay d fun h d => Observer.textDeleted h d o n
  schemeChanged s d := s.relay d Observer.schemeChanged
  syncTags s d := s.relay d Observer.syncTags
  updateHighlight s d start stop synchronous :=
    s.relay d fun h d => Observer.updateHighlight h d start stop synchronous
  hasPendingWork s := Observer.hasPendingWork s.observer
  runIdleSlice s d := (Observer.runIdleSlice s.observer d).map id
    (Prod.map (fun observer => { s with observer }) id)

theorem within [Observer H] : Observer.Within (observer : Scribe H → H) where
  attach _ _ := rfl
  detach _ _ := rfl
  textInserted _ _ _ _ := rfl
  textDeleted _ _ _ _ := rfl
  schemeChanged _ _ := rfl
  syncTags _ _ := rfl
  updateHighlight _ _ _ _ _ := rfl
  runIdleSlice _ _ := rfl

end Scribe

/-- The minutes explain what the observer knows of the text: nothing while it is detached, and else
the text that it was attached to, after every edit that it was told of since. Each of these is a
real one, and the text has not changed otherwise. -/
inductive Explains : List (Notice × Text) → Option Text → Prop where
  | nothing : Explains [] none
  | attached {ns : List (Notice × Text)} (t : Text) (before : Explains ns none) :
      Explains ((.attached, t) :: ns) (some t)
  | detached {ns : List (Notice × Text)} {t : Text} (before : Explains ns (some t)) :
      Explains ((.detached, t) :: ns) none
  | edited {ns : List (Notice × Text)} {e : Edit} {t t' : Text} (before : Explains ns (some t))
      (turns : e.Turns t t') (length : 0 < e.length) : Explains ((.edited e, t') :: ns) (some t')

/-- The text as the minutes tell it: that of the last attachment, after the edits since. -/
def retold : List (Notice × Text) → Option Text
  | [] => none
  | (.attached, t) :: _ => some t
  | (.detached, _) :: _ => none
  | (.edited e, t) :: ns => (retold ns).map fun before => e.redo before t

theorem Explains.retold_eq {ns : List (Notice × Text)} {known : Option Text}
    (h : Explains ns known) : retold ns = known := by
  induction h with
  | nothing => rfl
  | attached t before => rfl
  | detached before => rfl
  | edited before turns length ih => rw [retold, ih, Option.map_some, turns.redo_eq]

namespace Buffer

variable {H : Type}

/-- What an observer of the buffer should know of the text. -/
def watched (b : Buffer H) : Option Text := if b.highlightSyntax then some b.doc.text else none

theorem watched_of_on {b : Buffer H} (h : b.highlightSyntax = true) :
    b.watched = some b.doc.text := if_pos h

theorem watched_of_off {b : Buffer H} (h : b.highlightSyntax = false) : b.watched = none := by
  rw [watched, h]
  exact if_neg Bool.false_ne_true

/-- Nothing changes that an observer is to be told of. -/
structure Unnoticed (b b' : Buffer (Scribe H)) : Prop where
  text : b'.doc.text = b.doc.text
  highlightSyntax : b'.highlightSyntax = b.highlightSyntax
  history : b'.history = b.history
  minutes : b'.observer.minutes = b.observer.minutes

/-- The minutes explain the text, and whatever may be replayed is substantial. -/
structure Informed (b : Buffer (Scribe H)) : Prop where
  explains : Explains b.observer.minutes b.watched
  history : b.history.Substantial

namespace Unnoticed

variable {b b' b'' : Buffer (Scribe H)}

theorem refl (b : Buffer (Scribe H)) : b.Unnoticed b := ⟨rfl, rfl, rfl, rfl⟩

theorem trans (h : b.Unnoticed b') (h' : b'.Unnoticed b'') : b.Unnoticed b'' :=
  ⟨h'.text.trans h.text, h'.highlightSyntax.trans h.highlightSyntax, h'.history.trans h.history,
    h'.minutes.trans h.minutes⟩

theorem notifyIfOn {f : Scribe H → Document → Scribe H × Document}
    (hminutes : ∀ s d, (f s d).1.minutes = s.minutes) (htext : ∀ s d, (f s d).2.text = d.text)
    (b : Buffer (Scribe H)) : b.Unnoticed (b.notifyIfOn f) := by
  unfold Buffer.notifyIfOn
  split
  · exact ⟨htext _ _, rfl, rfl, hminutes _ _⟩
  · exact refl b

theorem clearBracketTag (b : Buffer (Scribe H)) : b.Unnoticed b.clearBracketTag := by
  unfold Buffer.clearBracketTag
  split <;> exact ⟨rfl, rfl, rfl, rfl⟩

theorem tagFound (b : Buffer (Scribe H)) (r : BracketResult) : b.Unnoticed (b.tagFound r) := by
  cases r <;> exact ⟨rfl, rfl, rfl, rfl⟩

variable [Observer H] [LeavesText H]

theorem updateBrackets (b : Buffer (Scribe H)) : b.Unnoticed b.updateBrackets.2 := by
  have hsearched : b.Unnoticed b.searched := (clearBracketTag b).trans
    (notifyIfOn (fun _ _ => rfl) (fun s d => LeavesText.updateHighlight s.observer d _ _ true) _)
  rw [updateBrackets_snd]
  exact hsearched.trans (tagFound _ _)

theorem cursorChanged (b : Buffer (Scribe H)) : b.Unnoticed b.cursorChanged := by
  unfold Buffer.cursorChanged
  split
  · exact updateBrackets b
  · exact refl b

end Unnoticed

namespace Informed

variable {b b' : Buffer (Scribe H)}

theorem unnoticed (hb : b.Informed) (h : b.Unnoticed b') : b'.Informed := by
  refine ⟨?_, h.history ▸ hb.history⟩
  rw [h.minutes, watched, h.text, h.highlightSyntax]
  exact hb.explains

/-- Only the history changes, and what has nothing to do with observers. -/
theorem of_history (hb : b.Informed) (hh : b'.history.Substantial)
    (htext : b'.doc.text = b.doc.text) (hon : b'.highlightSyntax = b.highlightSyntax)
    (hobserver : b'.observer = b.observer) : b'.Informed := by
  refine ⟨?_, hh⟩
  rw [hobserver, watched, htext, hon]
  exact hb.explains

theorem markModified (hb : b.Informed) : b.markModified.Informed := by
  unfold Buffer.markModified
  split
  · exact hb
  · exact hb.of_history (hb.history.modifiedChanged true) rfl rfl rfl

theorem beginUserAction (hb : b.Informed) : b.beginUserAction.Informed := by
  refine hb.of_history ?_ rfl rfl rfl
  unfold Buffer.beginUserAction
  dsimp only
  split
  · exact hb.history.of_eq rfl rfl
  · exact hb.history

/-- An observer that is switched on is told of an edit. -/
theorem edit (hb : b.Informed) {e : Edit} {d : Document} {history : History}
    {f : Scribe H → Document → Scribe H × Document} (he : e.Turns b.doc.text d.text)
    (hlength : 0 < e.length) (hh : history.Substantial)
    (hminutes : ∀ s, (f s d).1.minutes = (.edited e, d.text) :: s.minutes)
    (htext : ∀ s, (f s d).2.text = d.text) :
    ({ b with history, doc := d }.notifyIfOn f).Informed := by
  have hexplains := hb.explains
  unfold Buffer.notifyIfOn
  split
  · rename_i hon
    change b.highlightSyntax = true at hon
    have hwatched : ({ b with history, doc := d }.notify f).watched =
        some (f b.observer d).2.text := watched_of_on hon
    rw [watched_of_on hon] at hexplains
    refine ⟨?_, hh⟩
    -- the notice comes with the text after the edit, and its observer leaves that alone
    rw [hwatched, htext]
    change Explains (f b.observer d).1.minutes (some d.text)
    rw [hminutes]
    exact .edited hexplains he hlength
  · rename_i hoff
    replace hoff : b.highlightSyntax = false := Bool.not_eq_true _ ▸ hoff
    have hwatched : Buffer.watched { b with history, doc := d } = none := watched_of_off hoff
    rw [watched_of_off hoff] at hexplains
    refine ⟨?_, hh⟩
    rw [hwatched]
    exact hexplains

variable [Observer H] [LeavesText H]

theorem cursorChanged (hb : b.Informed) : b.cursorChanged.Informed :=
  hb.unnoticed (.cursorChanged b)

theorem finishUserAction (hb : b.Informed) : b.finishUserAction.Informed := by
  have finished : Informed { b with actionDepth := 0, history := b.history.finishUserAction } :=
    hb.of_history hb.history.finishUserAction rfl rfl rfl
  unfold Buffer.finishUserAction
  split
  · exact finished.cursorChanged
  · exact hb.of_history hb.history rfl rfl rfl

theorem keptByEdits : KeptByEdits (Informed : Buffer (Scribe H) → Prop) where
  inserted {b o t} hb ht ho := by
    have htold : (b.insertedBare o t).Informed :=
      hb.edit (Document.turns_inserted ho t) (List.length_pos_iff.2 ht)
        (hb.history.recordInsertAt o t _) (fun _ => rfl)
        fun s => LeavesText.textInserted s.observer _ o t.length
    exact htold.markModified.cursorChanged
  deleted {b start stop} hb hlt hstop := by
    have hslice : b.doc.text.slice start stop ≠ [] := by
      rw [← List.length_pos_iff, Text.length_slice hstop]
      omega
    have htold : (b.deletedBare start stop).Informed :=
      hb.edit (Document.turns_deleted (Nat.le_of_lt hlt) hstop) (Nat.sub_pos_of_lt hlt)
        (hb.history.recordDeleteAt hslice _) (fun _ => rfl)
        fun s => LeavesText.textDeleted s.observer _ start (stop - start)
    exact htold.markModified.cursorChanged
  begun hb := hb.beginUserAction
  finished hb := hb.finishUserAction

theorem replay (hb : b.Informed) {step : ReplayCommand} (hstep : step.Substantial) :
    (b.replay step).Informed := by
  cases step with
  | insert o t =>
    rw [replay_insert]
    split
    · rename_i ho
      exact hb.edit (Document.turns_inserted ho t) (List.length_pos_iff.2 hstep) hb.history
        (fun _ => rfl) fun s => LeavesText.textInserted s.observer _ o t.length
    · exact hb
  | delete start stop =>
    rw [replay_delete]
    split
    · rename_i hin
      exact hb.edit (Document.turns_deleted hin.1 hin.2) (Nat.sub_pos_of_lt hstep) hb.history
        (fun _ => rfl) fun s => LeavesText.textDeleted s.observer _ start (stop - start)
    · exact hb
  | placeCursor o => exact hb.of_history hb.history rfl rfl rfl
  | selectRange insert bound => exact hb.of_history hb.history rfl rfl rfl
  | setModified modified => exact hb.of_history hb.history rfl rfl rfl

theorem replayAll (hb : b.Informed) {steps : List ReplayCommand} {history : History}
    (hsteps : ∀ step ∈ steps, step.Substantial) (hh : history.Substantial) :
    (b.replayAll steps history).Informed := by
  have hfold : (steps.foldl Buffer.replay b).Informed := by
    induction steps generalizing b with
    | nil => exact hb
    | cons step steps ih =>
      exact ih (hb.replay (hsteps step List.mem_cons_self))
        fun step hstep => hsteps step (List.mem_cons_of_mem _ hstep)
  have replayed : Informed { steps.foldl Buffer.replay b with history } :=
    hfold.of_history hh rfl rfl rfl
  exact replayed.cursorChanged

theorem setHighlightSyntax (hb : b.Informed) (on : Bool) :
    (b.setHighlightSyntax on).Informed := by
  have hexplains := hb.explains
  unfold Buffer.setHighlightSyntax
  split
  · exact hb
  · rename_i hne
    refine ⟨?_, hb.history⟩
    cases on with
    | true =>
      rw [watched_of_off (Bool.not_eq_true _ ▸ hne)] at hexplains
      change Explains ((.attached, b.doc.text) :: b.observer.minutes)
        (some (Observer.attach b.observer.observer b.doc).2.text)
      rw [LeavesText.attach]
      exact .attached _ hexplains
    | false =>
      rw [watched_of_on (Bool.not_eq_false _ ▸ hne)] at hexplains
      exact .detached hexplains

/-- A command keeps the observer informed, as long as the minutes are left alone. -/
theorem perform (hb : b.Informed) (c : Command H) :
    (b.perform (c.lift Scribe.amend)).Informed := by
  cases c with
  | insert o t => exact keptByEdits.attempt hb (.insert o t)
  | delete start stop => exact keptByEdits.attempt hb (.delete start stop)
  | type t => exact keptByEdits.stroke hb (c := .type t) trivial
  | backspace => exact keptByEdits.stroke hb (c := .backspace) trivial
  | deleteKey => exact keptByEdits.stroke hb (c := .deleteKey) trivial
  | deleteSelection => exact keptByEdits.stroke hb (c := .deleteSelection) trivial
  | placeCursor o =>
    have placed : (b.modifyDocument (·.placeCursor o)).Informed :=
      hb.of_history hb.history rfl rfl rfl
    exact placed.cursorChanged
  | selectRange insert bound =>
    have selected : (b.modifyDocument (·.selectRange insert bound)).Informed :=
      hb.of_history hb.history rfl rfl rfl
    exact selected.cursorChanged
  | beginUserAction => exact hb.beginUserAction
  | endUserAction =>
    rw [Command.lift, perform_endUserAction]
    split
    · exact hb
    · exact hb.finishUserAction
  | undo =>
    rw [Command.lift, Buffer.perform, Buffer.undo]
    cases hundo : b.history.undo with
    | error fault => exact hb
    | ok r =>
      obtain ⟨hsteps, hh⟩ := hb.history.undo hundo
      exact hb.replayAll hsteps hh
  | redo =>
    rw [Command.lift, Buffer.perform, Buffer.redo]
    cases hredo : b.history.redo with
    | error fault => exact hb
    | ok r =>
      obtain ⟨hsteps, hh⟩ := hb.history.redo hredo
      exact hb.replayAll hsteps hh
  | setModified modified =>
    rw [Command.lift, Buffer.perform, Buffer.setModified]
    split
    · exact hb
    · exact hb.of_history (hb.history.modifiedChanged modified) rfl rfl rfl
  | setUndoLimit limit =>
    refine hb.of_history ?_ rfl rfl rfl
    have hlimited := hb.history.setLimit limit
    rw [Command.lift, Buffer.perform, setUndoLimit]
    dsimp only
    split
    · exact hlimited.modifiedChanged _
    · exact hlimited
  | beginNotUndoable => exact hb.of_history (hb.history.of_eq rfl rfl) rfl rfl rfl
  | endNotUndoable =>
    rw [Command.lift, Buffer.perform, endNotUndoable]
    cases hended : b.history.endNotUndoable with
    | error fault => exact hb
    | ok history =>
      exact hb.of_history ((hb.history.endNotUndoable hended).modifiedChanged _) rfl rfl rfl
  | setHighlightSyntax on => exact hb.setHighlightSyntax on
  | setHighlightBrackets on =>
    have first : Informed { b with highlightBrackets := on } :=
      hb.of_history hb.history rfl rfl rfl
    rw [Command.lift, Buffer.perform, setHighlightBrackets]
    split
    · exact hb
    · cases on with
      | true => exact first.unnoticed (.updateBrackets _)
      | false => exact first.unnoticed (.clearBracketTag _)
  | updateBrackets => exact hb.unnoticed (.updateBrackets b)
  | setMatcher m => exact hb.of_history hb.history rfl rfl rfl
  | setScheme s =>
    exact hb.unnoticed ⟨LeavesText.schemeChanged b.observer.observer _, rfl, rfl, rfl⟩
  | ensureHighlighted start stop =>
    exact hb.unnoticed (.notifyIfOn (fun _ _ => rfl)
      (fun s d => LeavesText.updateHighlight s.observer d start stop true) b)
  | requestHighlight start stop =>
    exact hb.unnoticed (.notifyIfOn (fun _ _ => rfl)
      (fun s d => LeavesText.updateHighlight s.observer d start stop false) b)
  | runIdleSlice =>
    refine hb.unnoticed ?_
    rw [Command.lift, Buffer.perform, Buffer.runIdleSlice]
    split
    · exact ⟨LeavesText.runIdleSlice b.observer.observer b.doc, rfl, rfl, rfl⟩
    · exact .refl b
  | modifyObserver f =>
    have amended : b.Unnoticed { b with observer := b.observer.amend f } := ⟨rfl, rfl, rfl, rfl⟩
    exact hb.unnoticed (amended.trans (.notifyIfOn (fun _ _ => rfl)
      (fun s d => LeavesText.syncTags s.observer d) _))

theorem undergoAll (hb : b.Informed) (es : List (CourseEvent H)) :
    (b.undergoAll (es.map (CourseEvent.lift Scribe.amend))).Informed := by
  induction es generalizing b with
  | nil => exact hb
  | cons e es ih =>
    refine ih ?_
    cases e with
    | command c => exact hb.perform c
    | adjust f keeps => exact hb.of_history hb.history (keeps b.doc) rfl rfl

end Informed

variable [Observer H] [LeavesText H]

theorem informed_ofDocument (d : Document) (h : H) : (ofDocument d (Scribe.start h)).Informed := by
  refine ⟨?_, .empty⟩
  change Explains [(.attached, d.text)] (some (Observer.attach h d).2.text)
  rw [LeavesText.attach]
  exact .attached _ .nothing

/-- An observer is told of the edits that happen, and of nothing else. With minutes, a buffer does
what it does without; whatever happens to it, the minutes explain its text, and the edits in them
lead to it from the text at the last attachment. What is refused is an insertion behind the text,
and a deletion where there is no such range: it changes nothing, nor is the observer told. -/
theorem minutes_explain (d : Document) (h : H) (es : List (CourseEvent H)) :
    let b := (ofDocument d h).undergoAll es
    let s := (ofDocument d (Scribe.start h)).undergoAll (es.map (CourseEvent.lift Scribe.amend))
    s.through Scribe.observer = b ∧
      Explains s.observer.minutes b.watched ∧ retold s.observer.minutes = b.watched ∧
      (∀ o t e, (s.insert o t).2 = .error e ↔
        b.doc.length < o ∧ e = .outOfRange o b.doc.length) ∧
      (∀ start stop e, (s.delete start stop).2 = .error e ↔
        stop < start ∧ e = .reversed start stop ∨
          start ≤ stop ∧ b.doc.length < stop ∧ e = .outOfRange stop b.doc.length) ∧
      (∀ o t e, (s.insert o t).2 = .error e → (s.insert o t).1 = s) ∧
      (∀ start stop e, (s.delete start stop).2 = .error e → (s.delete start stop).1 = s) ∧
      (∀ o t, b.doc.length < o → s.perform (.insert o t) = s) ∧
      ∀ start stop, stop < start ∨ b.doc.length < stop → s.perform (.delete start stop) = s := by
  intro b s
  have hthrough : s.through Scribe.observer = b := by
    rw [through_undergoAll Scribe.within _ (fun _ _ => rfl), through_ofDocument Scribe.within]
    rfl
  have hinformed : s.Informed := (informed_ofDocument d h).undergoAll es
  have hexplains : Explains s.observer.minutes b.watched := by
    rw [← hthrough]
    exact hinformed.explains
  have hdoc : s.doc = b.doc := congrArg Buffer.doc hthrough
  refine ⟨hthrough, hexplains, hexplains.retold_eq, fun o t e => ?_, fun start stop e => ?_,
    fun o t e => s.insert_of_refused, fun start stop e => s.delete_of_refused, fun o t ho => ?_,
    fun start stop hrange => ?_⟩
  · rw [insert_eq_error_iff, hdoc]
  · rw [delete_eq_error_iff, hdoc]
  · rw [perform, tryInsert_eq, hdoc, if_neg fun hdone => Nat.not_le.2 ho hdone.2]
  · rw [perform, tryDelete_eq, hdoc, if_neg (by omega)]

/-- Letters are replaced, that is undone and done again, and one of them is deleted while the
observer is detached. -/
def detachedEdit : List (CourseEvent PlainText) :=
  [.command (.insert 1 ['a', 'b']), .command (.selectRange 0 2), .command (.type ['c', 'd']),
    .command .undo, .command .redo, .command (.setHighlightSyntax false), .command (.delete 0 1),
    .command (.setHighlightSyntax true), .command (.delete 1 2), .command (.delete 1 3)]

theorem minutes_explain_detachedEdit :
    let b := (ofDocument (.new 0 ['x']) PlainText.mk).undergoAll detachedEdit
    let s := (ofDocument (.new 0 ['x']) (Scribe.start PlainText.mk)).undergoAll
      (detachedEdit.map (CourseEvent.lift Scribe.amend))
    b.watched = some ['d'] ∧ retold s.observer.minutes = some ['d'] ∧
      s.observer.minutes =
        [(.edited (.deletion 1 1), ['d']), (.attached, ['d', 'b']), (.detached, ['c', 'd', 'b']),
          (.edited (.insertion 0 2), ['c', 'd', 'b']), (.edited (.deletion 0 2), ['b']),
          (.edited (.insertion 0 2), ['x', 'a', 'b']), (.edited (.deletion 0 2), ['b']),
          (.edited (.insertion 0 2), ['c', 'd', 'b']), (.edited (.deletion 0 2), ['b']),
          (.edited (.insertion 1 2), ['x', 'a', 'b']), (.attached, ['x'])] := by
  have hwatched : ((ofDocument (.new 0 ['x']) PlainText.mk).undergoAll detachedEdit).watched =
      some ['d'] := by
    decide +kernel
  obtain ⟨-, -, hretold, -⟩ := minutes_explain (.new 0 ['x']) PlainText.mk detachedEdit
  exact ⟨hwatched, hretold.trans hwatched, by decide +kernel⟩

end Buffer
end CodeBuffer
