import CodeBuffer.Proofs.Context.Moved
import CodeBuffer.Proofs.History.Session
import CodeBuffer.Proofs.Upkeep.Reachable
import CodeBuffer.Regex.Engine

namespace CodeBuffer

open Delimiter DelimiterTable Highlighter

/-- What is done with a buffer and its highlighter. The size of the batches may change at any time,
and what the clock will say of them. -/
inductive Use where
  | command (c : Command Highlighter)
  | tune (cs : List Tuning)
  | resize (batchSize : Nat) (estimates : List Nat)
  | annotate (f : Document → Document)

/-- The text is edited by commands only, and the highlighter is tuned and not exchanged. -/
def Use.Proper : Use → Prop
  | command (.modifyObserver _) => False
  | annotate f => ∀ d, (f d).text = d.text ∧ (f d).id = d.id
  | _ => True

/-- The highlighter is not exchanged, and the document is changed by commands, or as `A` allows. -/
def Use.Within (A : Document → Document → Prop) : Use → Prop
  | command (.modifyObserver _) => False
  | annotate f => ∀ d, A d (f d)
  | _ => True

theorem Use.Within.mono {A A' : Document → Document → Prop} {u : Use} (hu : u.Within A)
    (h : ∀ d d', A d d' → A' d d') : u.Within A' := by
  cases u with
  | command c => cases c <;> exact hu
  | tune cs => exact hu
  | resize batchSize estimates => exact hu
  | annotate f => exact fun d => h d (f d) (hu d)

theorem Use.proper_iff (u : Use) :
    u.Proper ↔ u.Within fun d d' => d'.text = d.text ∧ d'.id = d.id := by
  cases u with
  | command c => cases c <;> rfl
  | tune cs => rfl
  | resize batchSize estimates => rfl
  | annotate f => rfl

/-- Brackets may be tagged from then on. -/
def Command.TagsBrackets {H : Type} : Command H → Prop
  | setHighlightBrackets on => on = true
  | updateBrackets => True
  | _ => False

namespace Buffer

/-- All that a buffer does with its highlighter short of changing the patterns keeps it, with the
document, in one condition while it is switched on and in another while it is not. The document may
change as `A` allows. Brackets are tagged only if `B`. -/
structure Preserves (B : Prop) (A : Document → Document → Prop) (On Off : Work → Prop) : Prop where
  same : ∀ d d', d'.text = d.text → d'.id = d.id → d'.tags = d.tags → A d d'
  clearTag : B → ∀ d tag, d.tags.lookup? bracketTag = some tag → A d (d.clearTag tag)
  tagBrackets : B → ∀ d bracket partner, A d (tagBrackets d bracket partner)
  on_change : ∀ h d d', On (h, d) → A d d' → On (h, d')
  off_change : ∀ h d d', Off (h, d) → A d d' → Off (h, d')
  on_edit : ∀ h d d' e, On (h, d) → d.MovedBy e d' → On (h.editedBy d' e)
  off_edit : ∀ h d d' e, Off (h, d) → d.MovedBy e d' → Off (h, d')
  attach : ∀ h d, Off (h, d) → On (h.attach d)
  detach : ∀ h d, On (h, d) → Off (h.detach d)
  on_resize : ∀ h d batchSize estimates, On (h, d) → On ({ h with batchSize, estimates }, d)
  off_resize : ∀ h d batchSize estimates, Off (h, d) → Off ({ h with batchSize, estimates }, d)
  on_scheme : ∀ h d, On (h, d) → On (h.schemeChanged d)
  off_scheme : ∀ h d, Off (h, d) → Off (h.schemeChanged d)
  update : ∀ h d start stop synchronous,
    On (h, d) → On (h.updateHighlight d start stop synchronous)
  idle : ∀ h d, On (h, d) → On (h.runIdleSlice d).2

/-- The condition that goes with the switch holds. -/
structure Kept (B : Prop) (On Off : Work → Prop) (b : Buffer Highlighter) : Prop where
  on : b.highlightSyntax = true → On (b.observer, b.doc)
  off : b.highlightSyntax = false → Off (b.observer, b.doc)
  brackets : b.highlightBrackets = true → B

variable {B : Prop} {A : Document → Document → Prop} {On Off : Work → Prop} {b : Buffer Highlighter}

namespace Preserves

/-- Marks and tags change as they may. -/
theorem change (hk : Preserves B A On Off) (hb : b.Kept B On Off) {b' : Buffer Highlighter}
    (hon : b'.highlightSyntax = b.highlightSyntax)
    (hbrackets : b'.highlightBrackets = b.highlightBrackets) (hobserver : b'.observer = b.observer)
    (hdoc : A b.doc b'.doc) : b'.Kept B On Off := by
  refine ⟨fun h => ?_, fun h => ?_, fun h => hb.brackets (hbrackets ▸ h)⟩
  · rw [hobserver]
    exact hk.on_change _ _ _ (hb.on (hon ▸ h)) hdoc
  · rw [hobserver]
    exact hk.off_change _ _ _ (hb.off (hon ▸ h)) hdoc

/-- The history has nothing to do with it. -/
theorem of_same (hk : Preserves B A On Off) (hb : b.Kept B On Off) {b' : Buffer Highlighter}
    (hon : b'.highlightSyntax = b.highlightSyntax)
    (hbrackets : b'.highlightBrackets = b.highlightBrackets) (hobserver : b'.observer = b.observer)
    (htext : b'.doc.text = b.doc.text) (hid : b'.doc.id = b.doc.id)
    (htags : b'.doc.tags = b.doc.tags) : b'.Kept B On Off :=
  hk.change hb hon hbrackets hobserver (hk.same _ _ htext hid htags)

theorem notifyIfOn (hb : b.Kept B On Off) {f : Highlighter → Document → Work}
    (hf : On (b.observer, b.doc) → On (f b.observer b.doc)) : (b.notifyIfOn f).Kept B On Off := by
  unfold Buffer.notifyIfOn
  split
  · rename_i hon
    exact ⟨fun _ => hf (hb.on hon), fun hoff => (by cases hon.symm.trans hoff), hb.brackets⟩
  · exact hb

/-- The highlighter is told of an edit if it is switched on. -/
theorem edit (hk : Preserves B A On Off) (hb : b.Kept B On Off) {d : Document} {e : Edit}
    (he : b.doc.MovedBy e d) (history : History) :
    ({ b with history, doc := d }.notifyIfOn fun h d => h.editedBy d e).Kept B On Off := by
  unfold Buffer.notifyIfOn
  split
  · rename_i hon
    exact ⟨fun _ => hk.on_edit _ _ _ _ (hb.on hon) he,
      fun hoff => (by cases hon.symm.trans hoff), hb.brackets⟩
  · rename_i hoff
    have hoff : b.highlightSyntax = false := Bool.not_eq_true _ ▸ hoff
    exact ⟨fun hon => (by cases hoff.symm.trans hon),
      fun _ => hk.off_edit _ _ _ _ (hb.off hoff) he, hb.brackets⟩

theorem clearBracketTag (hk : Preserves B A On Off) (hb : b.Kept B On Off) (hB : B) :
    b.clearBracketTag.Kept B On Off := by
  unfold Buffer.clearBracketTag
  split
  · rename_i tag htag
    exact hk.change hb rfl rfl rfl (hk.clearTag hB _ _ htag)
  · exact hb

theorem updateBrackets (hk : Preserves B A On Off) (hb : b.Kept B On Off) (hB : B) :
    b.updateBrackets.2.Kept B On Off := by
  have hlooked := notifyIfOn (f := fun h d => h.updateHighlight d
    (b.clearBracketTag.doc.cursor - b.clearBracketTag.matcher.maxChars)
    (min (b.clearBracketTag.doc.cursor + b.clearBracketTag.matcher.maxChars) d.length) true)
    (hk.clearBracketTag hb hB) (hk.update _ _ _ _ _)
  unfold Buffer.updateBrackets
  dsimp only
  split
  · exact hk.change hlooked rfl rfl rfl (hk.tagBrackets hB _ _ _)
  · exact hlooked

theorem cursorChanged (hk : Preserves B A On Off) (hb : b.Kept B On Off) :
    b.cursorChanged.Kept B On Off := by
  unfold Buffer.cursorChanged
  split
  · rename_i hon
    exact hk.updateBrackets hb (hb.brackets hon.1)
  · exact hb

theorem markModified (hk : Preserves B A On Off) (hb : b.Kept B On Off) :
    b.markModified.Kept B On Off := by
  unfold Buffer.markModified
  split
  · exact hb
  · exact hk.of_same hb rfl rfl rfl rfl rfl rfl

theorem tryInsert (hk : Preserves B A On Off) (hb : b.Kept B On Off) (o : Nat) (t : Text) :
    (b.tryInsert o t).Kept B On Off := by
  rw [tryInsert_eq]
  split
  · rename_i hdone
    have hedited := hk.edit hb (Document.movedBy_inserted hdone.2 t)
      (b.history.recordInsertAt o t b.doc.selection)
    exact hk.cursorChanged (hk.markModified hedited)
  · exact hb

theorem tryDelete (hk : Preserves B A On Off) (hb : b.Kept B On Off) (start stop : Nat) :
    (b.tryDelete start stop).2.Kept B On Off := by
  rw [tryDelete_eq]
  split
  · rename_i hdone
    have hedited := hk.edit hb (Document.movedBy_deleted (Nat.le_of_lt hdone.1) hdone.2)
      (b.history.recordDeleteAt start stop (b.doc.text.slice start stop) b.doc.selection)
    exact hk.cursorChanged (hk.markModified hedited)
  · exact hb

theorem beginUserAction (hk : Preserves B A On Off) (hb : b.Kept B On Off) :
    b.beginUserAction.Kept B On Off := hk.of_same hb rfl rfl rfl rfl rfl rfl

theorem finishUserAction (hk : Preserves B A On Off) (hb : b.Kept B On Off) :
    b.finishUserAction.Kept B On Off := by
  have closed : Kept B On Off { b with actionDepth := 0, history := b.history.finishUserAction } :=
    hk.of_same hb rfl rfl rfl rfl rfl rfl
  unfold Buffer.finishUserAction
  split
  · exact hk.cursorChanged closed
  · exact hk.of_same hb rfl rfl rfl rfl rfl rfl

theorem type (hk : Preserves B A On Off) (hb : b.Kept B On Off) (t : Text) :
    (b.type t).Kept B On Off := by
  have hbegun := hk.beginUserAction hb
  unfold Buffer.type
  dsimp only
  refine hk.finishUserAction (hk.tryInsert ?_ _ t)
  split
  · exact hk.tryDelete hbegun _ _
  · exact hbegun

theorem deleteAsAction (hk : Preserves B A On Off) (hb : b.Kept B On Off) (start stop : Nat) :
    (b.deleteAsAction start stop).2.Kept B On Off :=
  hk.finishUserAction (hk.tryDelete (hk.beginUserAction hb) start stop)

theorem deleteSelection (hk : Preserves B A On Off) (hb : b.Kept B On Off) :
    b.deleteSelection.2.Kept B On Off := by
  unfold Buffer.deleteSelection
  split
  · exact hk.deleteAsAction hb _ _
  · exact hb

theorem backspace (hk : Preserves B A On Off) (hb : b.Kept B On Off) :
    b.backspace.2.Kept B On Off := by
  unfold Buffer.backspace
  split
  · exact hk.deleteSelection hb
  · split
    · exact hb
    · exact hk.deleteAsAction hb _ _

theorem deleteKey (hk : Preserves B A On Off) (hb : b.Kept B On Off) :
    b.deleteKey.2.Kept B On Off := by
  unfold Buffer.deleteKey
  split
  · exact hk.deleteSelection hb
  · split
    · exact hb
    · exact hk.deleteAsAction hb _ _

theorem selectRange (hk : Preserves B A On Off) (hb : b.Kept B On Off) (insert bound : Nat) :
    (b.selectRange insert bound).Kept B On Off := by
  have selected : (b.modifyDocument (·.selectRange insert bound)).Kept B On Off :=
    hk.of_same hb rfl rfl rfl rfl rfl rfl
  exact hk.cursorChanged selected

theorem replay (hk : Preserves B A On Off) (hb : b.Kept B On Off) (step : ReplayCommand) :
    (b.replay step).Kept B On Off := by
  cases step with
  | insert o t =>
    rw [replay_insert]
    split
    · rename_i ho
      exact hk.edit hb (Document.movedBy_inserted ho t) b.history
    · exact hb
  | delete start stop =>
    rw [replay_delete]
    split
    · rename_i hin
      exact hk.edit hb (Document.movedBy_deleted hin.1 hin.2) b.history
    · exact hb
  | placeCursor o => exact hk.of_same hb rfl rfl rfl rfl rfl rfl
  | selectRange insert bound => exact hk.of_same hb rfl rfl rfl rfl rfl rfl
  | setModified modified => exact hk.of_same hb rfl rfl rfl rfl rfl rfl

theorem replayAll (hk : Preserves B A On Off) (hb : b.Kept B On Off) (steps : List ReplayCommand)
    (history : History) : (b.replayAll steps history).Kept B On Off := by
  have hfold : (steps.foldl Buffer.replay b).Kept B On Off := by
    induction steps generalizing b with
    | nil => exact hb
    | cons step steps ih => exact ih (hk.replay hb step)
  have replayed : Kept B On Off { steps.foldl Buffer.replay b with history } :=
    hk.of_same hfold rfl rfl rfl rfl rfl rfl
  exact hk.cursorChanged replayed

theorem setHighlightSyntax (hk : Preserves B A On Off) (hb : b.Kept B On Off) (on : Bool) :
    (b.setHighlightSyntax on).Kept B On Off := by
  unfold Buffer.setHighlightSyntax
  split
  · exact hb
  · rename_i hne
    cases on with
    | true =>
      exact ⟨fun _ => hk.attach _ _ (hb.off (Bool.not_eq_true _ ▸ hne)), nofun, hb.brackets⟩
    | false =>
      exact ⟨nofun, fun _ => hk.detach _ _ (hb.on (Bool.not_eq_false _ ▸ hne)), hb.brackets⟩

theorem setHighlightBrackets (hk : Preserves B A On Off) (hb : b.Kept B On Off) (on : Bool)
    (hB : on = true → B) : (b.setHighlightBrackets on).Kept B On Off := by
  have first : Kept B On Off { b with highlightBrackets := on } := ⟨hb.on, hb.off, hB⟩
  unfold Buffer.setHighlightBrackets
  split
  · exact hb
  · rename_i hne
    cases on with
    | true => exact hk.updateBrackets first (hB rfl)
    | false => exact hk.clearBracketTag first (hb.brackets (Bool.not_eq_false _ ▸ hne))

theorem setScheme (hk : Preserves B A On Off) (hb : b.Kept B On Off) (s : Option StyleScheme) :
    (b.setScheme s).Kept B On Off := by
  have first : (b.modifyDocument (·.setScheme s)).Kept B On Off :=
    hk.of_same hb rfl rfl rfl rfl rfl rfl
  exact ⟨fun hon => hk.on_scheme _ _ (first.on hon),
    fun hoff => hk.off_scheme _ _ (first.off hoff), hb.brackets⟩

theorem runIdleSlice (hk : Preserves B A On Off) (hb : b.Kept B On Off) :
    b.runIdleSlice.2.Kept B On Off := by
  unfold Buffer.runIdleSlice
  split
  · rename_i hon
    exact ⟨fun _ => hk.idle _ _ (hb.on hon), fun hoff => (by cases hon.symm.trans hoff),
      hb.brackets⟩
  · exact hb

/-- Commands keep the highlighter in its condition. -/
theorem perform (hk : Preserves B A On Off) (hb : b.Kept B On Off) {c : Command Highlighter}
    (hc : (Use.command c).Within A) (hB : c.TagsBrackets → B) : (b.perform c).Kept B On Off := by
  cases c with
  | insert o t => exact hk.tryInsert hb o t
  | delete start stop => exact hk.tryDelete hb start stop
  | type t => exact hk.type hb t
  | backspace => exact hk.backspace hb
  | deleteKey => exact hk.deleteKey hb
  | deleteSelection => exact hk.deleteSelection hb
  | placeCursor o => exact hk.selectRange hb o o
  | selectRange insert bound => exact hk.selectRange hb insert bound
  | beginUserAction => exact hk.beginUserAction hb
  | endUserAction =>
    rw [perform_endUserAction]
    split
    · exact hb
    · exact hk.finishUserAction hb
  | undo =>
    cases hundo : b.history.undo with
    | error fault =>
      simpa [Buffer.perform, Buffer.undo, hundo, Except.map, Except.toOption] using hb
    | ok r =>
      simpa [Buffer.perform, Buffer.undo, hundo, Except.map, Except.toOption] using
        hk.replayAll hb r.1 r.2
  | redo =>
    cases hredo : b.history.redo with
    | error fault =>
      simpa [Buffer.perform, Buffer.redo, hredo, Except.map, Except.toOption] using hb
    | ok r =>
      simpa [Buffer.perform, Buffer.redo, hredo, Except.map, Except.toOption] using
        hk.replayAll hb r.1 r.2
  | setModified modified =>
    refine iteInduction (motive := Kept B On Off) (fun _ => hb) (fun _ => ?_)
    exact hk.of_same hb rfl rfl rfl rfl rfl rfl
  | setUndoLimit limit => exact hk.of_same hb rfl rfl rfl rfl rfl rfl
  | beginNotUndoable => exact hk.of_same hb rfl rfl rfl rfl rfl rfl
  | endNotUndoable =>
    cases hended : b.history.endNotUndoable with
    | error fault =>
      simpa [Buffer.perform, endNotUndoable, hended, Except.map, Except.toOption] using hb
    | ok history =>
      have hdone : Kept B On Off { b with history := history.modifiedChanged b.doc.modified } :=
        hk.of_same hb rfl rfl rfl rfl rfl rfl
      simpa [Buffer.perform, endNotUndoable, hended, Except.map, Except.toOption] using hdone
  | setHighlightSyntax on => exact hk.setHighlightSyntax hb on
  | setHighlightBrackets on => exact hk.setHighlightBrackets hb on hB
  | updateBrackets => exact hk.updateBrackets hb (hB trivial)
  | setMatcher m => exact hk.of_same hb rfl rfl rfl rfl rfl rfl
  | setScheme s => exact hk.setScheme hb s
  | ensureHighlighted start stop => exact notifyIfOn hb (hk.update _ _ start stop true)
  | requestHighlight start stop => exact notifyIfOn hb (hk.update _ _ start stop false)
  | runIdleSlice => exact hk.runIdleSlice hb
  | modifyObserver f => exact hc.elim

end Preserves

variable [PatternEngine]

def use (b : Buffer Highlighter) : Use → Buffer Highlighter
  | .command c => b.perform c
  | .tune cs => (b.modifyObserver fun h => ((), h.tuneAll cs)).2
  | .resize batchSize estimates => { b with observer := { b.observer with batchSize, estimates } }
  | .annotate f => b.modifyDocument f

def useAll (b : Buffer Highlighter) (us : List Use) : Buffer Highlighter := us.foldl use b

theorem use_tune_of_on (hon : b.highlightSyntax = true) (cs : List Tuning) :
    b.use (.tune cs) = { b with
      observer := ((b.observer.tuneAll cs).syncTags b.doc).1
      doc := ((b.observer.tuneAll cs).syncTags b.doc).2 } := by
  change notifyIfOn { b with observer := b.observer.tuneAll cs } Observer.syncTags = _
  rw [notifyIfOn, if_pos hon]
  rfl

theorem use_tune_of_off (hoff : b.highlightSyntax = false) (cs : List Tuning) :
    b.use (.tune cs) = { b with observer := b.observer.tuneAll cs } := by
  change notifyIfOn { b with observer := b.observer.tuneAll cs } Observer.syncTags = _
  rw [notifyIfOn, if_neg]
  rw [hoff]
  exact Bool.false_ne_true

theorem Preserves.resize (hk : Preserves B A On Off) (hb : b.Kept B On Off) (batchSize : Nat)
    (estimates : List Nat) : (b.use (.resize batchSize estimates)).Kept B On Off :=
  ⟨fun hon => hk.on_resize _ _ batchSize estimates (hb.on hon),
    fun hoff => hk.off_resize _ _ batchSize estimates (hb.off hoff), hb.brackets⟩

/-- Changes of the patterns keep it as well. -/
structure Keeps (A : Document → Document → Prop) (On Off : Work → Prop) : Prop
    extends Preserves True A On Off where
  on_tune : ∀ h d cs, On (h, d) → On ((h.tuneAll cs).syncTags d)
  off_tune : ∀ h d cs, Off (h, d) → Off (h.tuneAll cs, d)

namespace Keeps

theorem tune (hk : Keeps A On Off) (hb : b.Kept True On Off) (cs : List Tuning) :
    (b.use (.tune cs)).Kept True On Off := by
  cases hon : b.highlightSyntax with
  | true =>
    rw [use_tune_of_on hon]
    exact ⟨fun _ => hk.on_tune _ _ cs (hb.on hon), fun hoff => (by cases hon.symm.trans hoff),
      hb.brackets⟩
  | false =>
    rw [use_tune_of_off hon]
    exact ⟨fun h => (by cases hon.symm.trans h), fun _ => hk.off_tune _ _ cs (hb.off hon),
      hb.brackets⟩

/-- What is done with a buffer keeps its highlighter in its condition. -/
theorem use (hk : Keeps A On Off) (hb : b.Kept True On Off) {u : Use} (hu : u.Within A) :
    (b.use u).Kept True On Off := by
  cases u with
  | command c => exact hk.toPreserves.perform hb hu fun _ => trivial
  | tune cs => exact hk.tune hb cs
  | resize batchSize estimates => exact hk.toPreserves.resize hb batchSize estimates
  | annotate f => exact hk.toPreserves.change hb rfl rfl rfl (hu b.doc)

theorem useAll (hk : Keeps A On Off) (hb : b.Kept True On Off) {us : List Use}
    (hus : ∀ u ∈ us, u.Within A) : (b.useAll us).Kept True On Off := by
  induction us generalizing b with
  | nil => exact hb
  | cons u us ih =>
    exact ih (hk.use hb (hus u List.mem_cons_self)) fun v hv => hus v (List.mem_cons_of_mem u hv)

end Keeps

/-- A highlighter that is told of every edit while it is switched on, and else is attached to
nothing. -/
theorem keeps_reachable : Keeps (fun d d' => d'.text = d.text ∧ d'.id = d.id) Reachable
    fun s => Reachable s ∧ s.1.attached = none where
  same d d' htext hid _ := ⟨htext, hid⟩
  clearTag _ d tag _ := ⟨rfl, rfl⟩
  tagBrackets _ d bracket partner := ⟨rfl, rfl⟩
  on_change h d d' hs hd := hs.step (.annotate h hd.1 hd.2)
  off_change h d d' hs hd := ⟨hs.1.step (.annotate h hd.1 hd.2), hs.2⟩
  on_edit h d d' e hs he := hs.step (.edit he.turns he.id)
  off_edit h d d' e hs _ := ⟨hs.1.step (.unwatched hs.2 d d'), hs.2⟩
  attach h d hs := hs.1.step (.attach h d)
  detach h d hs := by
    refine ⟨hs.step (.detach h d), ?_⟩
    -- what is attached is attached to this document
    rcases hs.keepsUp with hi | ⟨ha, -⟩
    · rw [Highlighter.detach, isAttachedTo, hi.attached]
      exact hi.attached
    · have hown : h.isAttachedTo d = true := by
        rw [isAttachedTo, show h.attached = some d.id from ha]
        exact beq_self_eq_true _
      rw [Highlighter.detach, if_pos hown]
      rfl
  on_tune h d cs hs := (hs.tuneAll cs).step (.syncTags _ d)
  off_tune h d cs hs := ⟨hs.1.tuneAll cs, (attached_tuneAll h cs).trans hs.2⟩
  on_resize h d batchSize estimates hs := hs.step (.resize h d batchSize estimates)
  off_resize h d batchSize estimates hs := ⟨hs.1.step (.resize h d batchSize estimates), hs.2⟩
  on_scheme h d hs := hs.step (.schemeChanged h d)
  off_scheme h d hs := by
    refine ⟨hs.1.step (.schemeChanged h d), ?_⟩
    rw [schemeChanged]
    split <;> exact hs.2
  update h d start stop synchronous hs := hs.step (.updateHighlight h d start stop synchronous)
  idle h d hs := hs.step (.runIdleSlice h d)

/-- A buffer whose highlighter is told of every edit, or attached to nothing. -/
def Observed (b : Buffer Highlighter) : Prop :=
  b.Kept True Reachable fun s => Reachable s ∧ s.1.attached = none

theorem Observed.reachable (hb : b.Observed) : Reachable (b.observer, b.doc) := by
  cases hon : b.highlightSyntax with
  | true => exact hb.on hon
  | false => exact (hb.off hon).1

theorem Observed.useAll (hb : b.Observed) {us : List Use} (hus : ∀ u ∈ us, u.Proper) :
    (b.useAll us).Observed :=
  keeps_reachable.useAll hb fun u hu => (Use.proper_iff u).1 (hus u hu)

/-- A buffer is observed from the start. -/
theorem observed_ofDocument (config : BatchConfig) (cs : List Tuning) (d : Document) :
    (ofDocument d ((ofConfig config).tuneAll cs)).Observed :=
  ⟨fun _ => ((Reachable.fresh config d).tuneAll cs).step (.attach _ d), nofun, fun _ => trivial⟩

end Buffer

namespace Highlighter

/-- What a highlighter knows of a text of `n` characters is in order. -/
structure Orderly (h : Highlighter) (n : Nat) : Prop where
  alternate : h.table.entries.IsChain Precedes
  opens_first : ∀ d ∈ h.table.entries.head?, d.opens = true
  offset_le : ∀ d ∈ h.table.entries, d.offset ≤ n
  pending : ∀ f, h.table.frontier = .pending f → f ≤ n ∧ ∀ d ∈ h.table.entries, d.offset ≤ f
  depth : ∀ d ∈ h.table.entries, d.depth = if d.opens then 1 else 0
  registered : ∀ d ∈ h.table.entries ++ h.table.oldEntries, ∀ key ∈ d.key,
    ∃ p ∈ h.patterns, p.key? = some key
  old_alternate : h.table.oldEntries.IsChain Precedes
  regions : h.isAttached = true →
    ∀ p, h.refresh.contains p = true ∨ h.requests.contains p = true → p < n

variable {h : Highlighter} {d : Document}

theorem orderly_of_table {t : Text} (hT : h.table.Sound t h.keys)
    (hregions : h.isAttached = true → h.refresh.Below t.length ∧ h.requests.Below t.length) :
    h.Orderly t.length := by
  have hreach := hT.reach_le
  have hoffset : ∀ d ∈ h.table.entries, d.offset ≤ h.table.frontier.reach t := by
    intro d hd
    have hle := hT.before d hd
    rw [rank] at hle
    split at hle <;> omega
  refine ⟨hT.entries.isChain, hT.entries.head, ?_, ?_, ?_, ?_, ?_, ?_⟩
  · exact fun d hd => (hoffset d hd).trans hreach
  · intro f hf
    rw [hf] at hreach hoffset
    exact ⟨hreach, hoffset⟩
  · exact fun d hd => (hT.shaped d (List.mem_append_left _ hd)).1
  · intro d hd key hkey
    obtain ⟨q, hq, rfl⟩ := List.mem_map.1 ((hT.shaped d hd).2 key hkey)
    obtain ⟨p, hp, hpq⟩ := List.mem_filterMap.1 hq
    exact ⟨p, hp, by rw [Pattern.key?, hpq, Option.map_some]⟩
  · obtain ⟨state, hold⟩ := hT.old
    exact hold.isChain
  · intro ha p hp
    obtain ⟨hrefresh, hrequests⟩ := hregions ha
    rcases hp with hp | hp
    · exact hrefresh.2 p hp
    · exact hrequests.2 p hp

theorem KeepsUp.orderly [PatternEngine] (hs : KeepsUp (h, d)) : h.Orderly d.length := by
  rcases hs with hi | ⟨-, hs⟩
  · have hT : h.table.Sound d.text h.keys := by
      rw [hi.table]
      exact sound_reset d.text _ _
    refine orderly_of_table hT fun ha => ?_
    rw [isAttached, hi.attached] at ha
    cases ha
  · exact orderly_of_table hs.table fun _ => ⟨hs.refresh, hs.requests⟩

end Highlighter

namespace Buffer

/-- Whatever is done with a buffer, its highlighter keeps its delimiters in order, within what is
analysed and of the patterns that it has, and while it is attached marks nothing behind the text. -/
theorem orderly_useAll [PatternEngine] (config : BatchConfig) (cs : List Tuning) (d : Document)
    {us : List Use} (hus : ∀ u ∈ us, u.Proper) :
    let b := (ofDocument d ((ofConfig config).tuneAll cs)).useAll us
    b.observer.Orderly b.doc.length :=
  ((observed_ofDocument config cs d).useAll hus).reachable.keepsUp.orderly

open scoped Regex

/-- Strings between bars are edited, and their pattern goes and comes again. -/
def barUses : List Use :=
  [.command (.ensureHighlighted 0 3), .resize 1 [0, 4], .command (.insert 5 ['x', '|']),
    .command (.delete 0 1), .tune [.removePattern "bar"], .command .undo,
    .command (.setHighlightSyntax false), .command .redo, .command (.setHighlightSyntax true),
    .tune [.addPattern (.delimited "bar" "string" "\\|" "\\|" none)],
    .command (.requestHighlight 1 7), .command .runIdleSlice]

def barBuffer : Buffer Highlighter :=
  (ofDocument (.new 0 ['a', '|', 'b', '|', '\n', '|', 'c']) ((ofConfig {}).tuneAll
    [.addPattern (.delimited "bar" "string" "\\|" "\\|" none)])).useAll barUses

theorem orderly_useAll_bars :
    (∀ u ∈ barUses, u.Proper) ∧ barBuffer.observer.Orderly barBuffer.doc.length := by
  have hus : ∀ u ∈ barUses, u.Proper := by simp [barUses, Use.Proper]
  exact ⟨hus, orderly_useAll {} [.addPattern (.delimited "bar" "string" "\\|" "\\|" none)]
    (.new 0 ['a', '|', 'b', '|', '\n', '|', 'c']) hus⟩

end Buffer
end CodeBuffer
