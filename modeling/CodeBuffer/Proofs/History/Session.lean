import CodeBuffer.Proofs.History.Retracing

namespace CodeBuffer

/-- What may be asked of a buffer without going behind its back. -/
inductive Command (H : Type) where
  | insert (offset : Nat) (text : Text)
  | delete (start stop : Nat)
  | type (text : Text)
  | backspace
  | deleteKey
  | deleteSelection
  | placeCursor (offset : Nat)
  | selectRange (insert bound : Nat)
  | beginUserAction
  | endUserAction
  | undo
  | redo
  | setModified (modified : Bool)
  | setUndoLimit (limit : Int)
  | beginNotUndoable
  | endNotUndoable
  | setHighlightSyntax (on : Bool)
  | setHighlightBrackets (on : Bool)
  | updateBrackets
  | setMatcher (m : BracketMatcher)
  | setScheme (s : Option StyleScheme)
  | ensureHighlighted (start stop : Nat)
  | requestHighlight (start stop : Nat)
  | runIdleSlice
  | modifyObserver (f : H → H)

namespace Buffer

variable {H : Type} [Observer H]

/-- A command that is refused changes nothing. -/
def perform (b : Buffer H) : Command H → Buffer H
  | .insert o t => b.tryInsert o t
  | .delete start stop => (b.tryDelete start stop).2
  | .type t => b.type t
  | .backspace => b.backspace.2
  | .deleteKey => b.deleteKey.2
  | .deleteSelection => b.deleteSelection.2
  | .placeCursor o => b.placeCursor o
  | .selectRange insert bound => b.selectRange insert bound
  | .beginUserAction => b.beginUserAction
  | .endUserAction => b.endUserAction.toOption.getD b
  | .undo => b.undo.toOption.getD b
  | .redo => b.redo.toOption.getD b
  | .setModified modified => b.setModified modified
  | .setUndoLimit limit => b.setUndoLimit limit
  | .beginNotUndoable => b.beginNotUndoable
  | .endNotUndoable => b.endNotUndoable.toOption.getD b
  | .setHighlightSyntax on => b.setHighlightSyntax on
  | .setHighlightBrackets on => b.setHighlightBrackets on
  | .updateBrackets => b.updateBrackets.2
  | .setMatcher m => b.setMatcher m
  | .setScheme s => b.setScheme s
  | .ensureHighlighted start stop => b.ensureHighlighted start stop
  | .requestHighlight start stop => b.requestHighlight start stop
  | .runIdleSlice => b.runIdleSlice.2
  | .modifyObserver f => (b.modifyObserver fun h => ((), f h)).2

end Buffer

namespace Command

variable {H : Type}

/-- Whether the command marks the text as saved. -/
def saves (b : Buffer H) : Command H → Bool
  | .setModified false => b.doc.modified
  | _ => false

/-- There is no undo and no redo while recording is suspended. -/
def AllowedOn (b : Buffer H) : Command H → Prop
  | .undo => b.history.suspensions = 0
  | .redo => b.history.suspensions = 0
  | _ => True

/-- The way back to the first text is lost: edits go unrecorded, steps that are done are beyond the
new limit, or a step is made for which the oldest one has to go. What an edit comes to is seen from
what it gathers within a user action that is begun for it. -/
def Forgets [Observer H] (b : Buffer H) (c : Command H) : Prop :=
  match c with
  | .beginNotUndoable => True
  | .setUndoLimit limit => limit = 0 ∨ 0 < limit ∧ limit < (b.history.location : Int)
  | .setModified false => b.doc.modified = true ∧ b.history.Evicts
  | .endUserAction => b.actionDepth = 1 ∧ b.history.Evicts
  | .insert _ _ | .delete _ _ | .type _ | .backspace | .deleteKey | .deleteSelection =>
    b.actionDepth = 0 ∧ (b.beginUserAction.perform c).history.Evicts
  | _ => False

end Command

/-- A buffer in use, with the text that was saved last and the texts that undo may come back to. -/
structure Session (H : Type) where
  buffer : Buffer H
  saved : Text
  landmarks : List Text

namespace Session

variable {H : Type} [Observer H]

def start (id : Nat) (t : Text) (h : H) : Session H := ⟨.new id t h, t, [t]⟩

/-- A text becomes a landmark where no user action is open, and within one where it is marked as
saved or recording begins anew. -/
def perform (s : Session H) (c : Command H) : Session H :=
  let b := s.buffer.perform c
  { buffer := b
    saved := if c.saves s.buffer then b.doc.text else s.saved
    landmarks :=
      if b.actionDepth = 0 ∨ c.saves s.buffer ∨
          (s.buffer.history.isRecording = false ∧ b.history.isRecording) then
        b.doc.text :: s.landmarks
      else s.landmarks }

def run (s : Session H) (cs : List (Command H)) : Session H := cs.foldl perform s

/-- Every command is allowed when it comes. -/
def Permits (s : Session H) : List (Command H) → Prop
  | [] => True
  | c :: cs => c.AllowedOn s.buffer ∧ (s.perform c).Permits cs

/-- No command costs the way back to the first text. -/
def Remembers (s : Session H) : List (Command H) → Prop
  | [] => True
  | c :: cs => ¬c.Forgets s.buffer ∧ (s.perform c).Remembers cs

/-- A session whose history is in step with its text. -/
structure Valid (origin : Option Text) (s : Session H) : Prop where
  coherent : s.buffer.Coherent (· ∈ s.landmarks) origin s.saved
  landed : s.buffer.Landed (· ∈ s.landmarks)

end Session

namespace Buffer

variable {H : Type} [Observer H] [Quiet H] {L : Text → Prop} {origin : Option Text} {saved : Text}
  {b : Buffer H}

omit [Quiet H] in
theorem perform_endUserAction (b : Buffer H) :
    b.perform .endUserAction = if b.actionDepth = 0 then b else b.finishUserAction := by
  rw [Buffer.perform, endUserAction]
  split <;> rfl

omit [Quiet H] in
/-- To save a text that is saved changes nothing. -/
theorem Coherent.perform_save (hc : b.Coherent L origin saved)
    (hkept : origin ≠ none → ¬(Command.setModified false).Forgets b)
    (hsave : b.doc.modified = true → L (b.setModified false).doc.text) :
    (b.setModified false).Coherent L origin
      (if b.doc.modified then (b.setModified false).doc.text else saved) := by
  cases hm : b.doc.modified with
  | false =>
    rw [setModified_of_saved hm]
    exact hc
  | true =>
    have htext : (b.setModified false).doc.text = b.doc.text := by
      unfold Buffer.setModified
      split <;> rfl
    rw [if_pos rfl, htext]
    apply hc.save hm (htext ▸ hsave hm)
    exact fun horigin hevicts => hkept horigin ⟨hm, hevicts⟩

/-- A command that is allowed keeps the history in step, if the landmarks are known. -/
theorem Coherent.perform (hc : b.Coherent L origin saved) {c : Command H} (hallowed : c.AllowedOn b)
    (hkept : origin ≠ none → ¬c.Forgets b) (hL : (b.perform c).Landed L)
    (hsave : c.saves b = true → L (b.perform c).doc.text)
    (hresume : b.history.isRecording = false → (b.perform c).history.isRecording = true →
      L (b.perform c).doc.text) :
    (b.perform c).Coherent L origin (if c.saves b then (b.perform c).doc.text else saved) := by
  cases c with
  | insert o t =>
    exact hc.insert o t hL fun horigin hd hevicts => hkept horigin ⟨hd, hevicts⟩
  | delete start stop =>
    exact hc.delete start stop hL fun horigin hd hevicts => hkept horigin ⟨hd, hevicts⟩
  | type t => exact hc.type t hL fun horigin hd hevicts => hkept horigin ⟨hd, hevicts⟩
  | backspace => exact hc.backspace hL fun horigin hd hevicts => hkept horigin ⟨hd, hevicts⟩
  | deleteKey => exact hc.deleteKey hL fun horigin hd hevicts => hkept horigin ⟨hd, hevicts⟩
  | deleteSelection =>
    exact hc.deleteSelection hL fun horigin hd hevicts => hkept horigin ⟨hd, hevicts⟩
  | placeCursor o => exact hc.alike (b.alike_placeCursor o)
  | selectRange insert bound => exact hc.alike (b.alike_selectRange insert bound)
  | beginUserAction => exact hc.beginUserAction
  | endUserAction =>
    rw [perform_endUserAction] at hL ⊢
    split at hL
    · rename_i hclosed
      rw [if_pos hclosed]
      exact hc
    · rename_i hopen
      rw [if_neg hopen]
      apply hc.finishUserAction (by omega) hL
      exact fun horigin hlast hevicts => hkept horigin ⟨hlast, hevicts⟩
  | undo =>
    cases hundo : b.undo with
    | error fault => simpa [Buffer.perform, hundo, Except.toOption, Command.saves] using hc
    | ok b' =>
      simpa [Buffer.perform, hundo, Except.toOption, Command.saves] using hc.undo hallowed hundo
  | redo =>
    cases hredo : b.redo with
    | error fault => simpa [Buffer.perform, hredo, Except.toOption, Command.saves] using hc
    | ok b' =>
      simpa [Buffer.perform, hredo, Except.toOption, Command.saves] using hc.redo hallowed hredo
  | setModified modified =>
    cases modified with
    | true => exact hc.flag
    | false => exact hc.perform_save hkept hsave
  | setUndoLimit limit =>
    apply hc.setUndoLimit _ hresume
    intro horigin
    have hnot := hkept horigin
    rw [Command.Forgets] at hnot
    omega
  | beginNotUndoable =>
    cases origin with
    | none => exact hc.beginNotUndoable
    | some t => exact absurd trivial (hkept (Option.some_ne_none t))
  | endNotUndoable =>
    cases hended : b.endNotUndoable with
    | error fault => simpa [Buffer.perform, hended, Except.toOption, Command.saves] using hc
    | ok b' =>
      have hdone : b.perform .endNotUndoable = b' := by
        rw [Buffer.perform, hended]
        rfl
      rw [hdone] at hresume ⊢
      exact hc.endNotUndoable hended hresume
  | setHighlightSyntax on => exact hc.alike (b.alike_setHighlightSyntax on)
  | setHighlightBrackets on => exact hc.alike (b.alike_setHighlightBrackets on)
  | updateBrackets => exact hc.alike b.alike_updateBrackets
  | setMatcher m => exact hc.alike ⟨rfl, rfl, rfl, rfl⟩
  | setScheme s => exact hc.alike (b.alike_setScheme s)
  | ensureHighlighted start stop => exact hc.alike (b.alike_ensureHighlighted start stop)
  | requestHighlight start stop => exact hc.alike (b.alike_requestHighlight start stop)
  | runIdleSlice => exact hc.alike b.alike_runIdleSlice
  | modifyObserver f => exact hc.alike (b.alike_modifyObserver _)

end Buffer

namespace Session

variable {H : Type} [Observer H] [Quiet H] {origin : Option Text} {s : Session H}

theorem valid_start (id : Nat) (t : Text) (h : H) : (start id t h).Valid (some t) := by
  have hattach := Quiet.attach h (.new id t)
  have htext : (Buffer.new id t h).doc.text = t := hattach.text_eq
  have hmodified : (Buffer.new id t h).doc.modified = false := hattach.modified_eq
  have hhere : t ∈ (start id t h).landmarks := List.mem_singleton_self t
  refine ⟨⟨?_, fun _ => rfl, fun _ => htext, ?_, fun _ => rfl, ?_⟩, ?_⟩
  · exact ⟨fun h => (by cases h), fun h => absurd h (Nat.lt_irrefl 0)⟩
  · intro _ hlimit
    cases hlimit
  · intro _
    rw [show (start id t h).buffer.doc.text = t from htext,
      show (start id t h).buffer.doc.modified = false from hmodified]
    refine History.recorded_single rfl rfl rfl hhere ⟨fun _ => rfl, fun _ => rfl⟩ ?_ ?_
    · exact fun i hi => ⟨(Option.some.inj hi).symm, rfl⟩
    · exact fun t' ht' => Option.some.inj ht'
  · intro _
    rw [show (start id t h).buffer.doc.text = t from htext]
    exact hhere

omit [Observer H] [Quiet H] in
theorem Valid.forget {t : Text} (hv : s.Valid (some t)) : s.Valid none := by
  refine ⟨{ hv.coherent with
    whole := fun h => absurd rfl h
    recorded := fun hrec => ?_ }, hv.landed⟩
  obtain ⟨texts, ht, hp, hflag⟩ := hv.coherent.recorded hrec
  exact ⟨texts, { ht with origin := fun _ h => (by cases h) }, hp, hflag⟩

theorem Valid.perform (hv : s.Valid origin) {c : Command H} (hallowed : c.AllowedOn s.buffer)
    (hkept : origin ≠ none → ¬c.Forgets s.buffer) : (s.perform c).Valid origin := by
  have hmem (hmark : (s.buffer.perform c).actionDepth = 0 ∨ c.saves s.buffer = true ∨
      (s.buffer.history.isRecording = false ∧
        (s.buffer.perform c).history.isRecording = true)) :
      (s.buffer.perform c).doc.text ∈ (s.perform c).landmarks := by
    have hlandmarks : (s.perform c).landmarks = (s.buffer.perform c).doc.text :: s.landmarks :=
      if_pos hmark
    rw [hlandmarks]
    exact List.mem_cons_self
  have hmore : ∀ t ∈ s.landmarks, t ∈ (s.perform c).landmarks := by
    intro t ht
    unfold Session.perform
    dsimp only
    split
    · exact List.mem_cons_of_mem _ ht
    · exact ht
  have hc : s.buffer.Coherent (· ∈ (s.perform c).landmarks) origin s.saved :=
    hv.coherent.mono hmore
  have hlanded : (s.buffer.perform c).Landed (· ∈ (s.perform c).landmarks) :=
    fun hdepth => hmem (.inl hdepth)
  exact ⟨hc.perform hallowed hkept hlanded (fun hsave => hmem (.inr (.inl hsave)))
    (fun hoff hon => hmem (.inr (.inr ⟨hoff, hon⟩))), hlanded⟩

theorem Valid.run (hv : s.Valid origin) {cs : List (Command H)} (hcs : s.Permits cs)
    (hkept : origin ≠ none → s.Remembers cs) : (s.run cs).Valid origin := by
  induction cs generalizing s with
  | nil => exact hv
  | cons c cs ih =>
    exact ih (hv.perform hcs.1 fun h => (hkept h).1) hcs.2 fun h => (hkept h).2

omit [Observer H] [Quiet H] in
/-- Where nothing is recorded, there is nothing to undo or to redo. -/
theorem Valid.depths_of_off (hv : s.Valid origin) (hrec : s.buffer.history.isRecording = false)
    (hsusp : s.buffer.history.suspensions = 0) :
    s.buffer.history.undoDepth = 0 ∧ s.buffer.history.redoDepth = 0 := by
  have hlimit : s.buffer.history.limit = 0 := by
    by_cases hzero : s.buffer.history.limit = 0
    · exact hzero
    · rw [History.isRecording_iff.2 ⟨hsusp, hzero⟩] at hrec
      cases hrec
  obtain ⟨hsteps, hlocation, -, -⟩ := hv.coherent.off hsusp hlimit
  exact ⟨hlocation, by rw [History.redoDepth, hsteps, List.length_nil, Nat.zero_sub]⟩

/-- Undo goes back to texts that the buffer had, and redo returns from there. In every state without
an open user action or suspension, so many undos as there are steps succeed, no edit of them is
refused, and each of them comes to a landmark. Redos from there, or undos after redos, restore what
there was. A history that lost no step goes back to the first text. -/
theorem retraces (id : Nat) (t : Text) (h : H) {cs : List (Command H)}
    (hcs : (start id t h).Permits cs)
    (hclosed : ((start id t h).run cs).buffer.actionDepth = 0)
    (hsusp : ((start id t h).run cs).buffer.history.suspensions = 0) :
    let s := (start id t h).run cs
    (∀ k ≤ s.buffer.history.undoDepth, ∃ b, Buffer.times Buffer.undo k s.buffer = .ok b ∧
      b.doc.text ∈ s.landmarks ∧ b.AcceptsNext History.undo ∧
        ∃ b', Buffer.times Buffer.redo k b = .ok b' ∧ s.buffer.Restored b') ∧
      (∀ k ≤ s.buffer.history.redoDepth, ∃ b, Buffer.times Buffer.redo k s.buffer = .ok b ∧
        b.AcceptsNext History.redo ∧
          ∃ b', Buffer.times Buffer.undo k b = .ok b' ∧ s.buffer.Restored b') ∧
      ((start id t h).Remembers cs →
        ∃ b, Buffer.times Buffer.undo s.buffer.history.undoDepth s.buffer = .ok b ∧
          b.doc.text = t) := by
  have hfirst (hkept : (start id t h).Remembers cs) :
      ((start id t h).run cs).Valid (some t) :=
    (valid_start id t h).run hcs fun _ => hkept
  have hv := (valid_start id t h).forget.run hcs fun h => absurd rfl h
  generalize (start id t h).run cs = s at hclosed hsusp hfirst hv
  refine ⟨?_, ?_, ?_⟩
  · intro k hk
    cases hrec : s.buffer.history.isRecording with
    | true =>
      obtain ⟨texts, hstanding⟩ := hv.coherent.standing hrec hclosed
      exact hstanding.undo_redo hk
    | false =>
      have hzero := (hv.depths_of_off hrec hsusp).1
      obtain rfl : k = 0 := by omega
      exact ⟨s.buffer, rfl, hv.landed hclosed, Buffer.acceptsUndo_of_oldest hzero, s.buffer, rfl,
        rfl, rfl, rfl, rfl⟩
  · intro k hk
    cases hrec : s.buffer.history.isRecording with
    | true =>
      obtain ⟨texts, hstanding⟩ := hv.coherent.standing hrec hclosed
      exact hstanding.redo_undo hk
    | false =>
      have hzero := (hv.depths_of_off hrec hsusp).2
      obtain rfl : k = 0 := by omega
      exact ⟨s.buffer, rfl, Buffer.acceptsRedo_of_newest (Nat.sub_eq_zero_iff_le.1 hzero),
        s.buffer, rfl, rfl, rfl, rfl, rfl⟩
  · intro hkept
    have hvalid := hfirst hkept
    have hrec := hvalid.coherent.whole (Option.some_ne_none t)
    obtain ⟨texts, hstanding⟩ := hvalid.coherent.standing hrec hclosed
    exact hstanding.undo_all

/-- A text is edited, saved within a user action, edited on and taken back by one step. There is
just room for the steps. -/
def savedWithin : List (Command PlainText) :=
  [.setUndoLimit 3, .insert 2 ['c'], .beginUserAction, .delete 0 1, .setModified false,
    .insert 0 ['x', 'y'], .endUserAction, .undo]

theorem permits_savedWithin : (start 0 ['a', 'b'] PlainText.mk).Permits savedWithin :=
  ⟨trivial, trivial, trivial, trivial, trivial, trivial, trivial, rfl, trivial⟩

theorem remembers_savedWithin : (start 0 ['a', 'b'] PlainText.mk).Remembers savedWithin := by
  refine ⟨?_, ?_, ?_, ?_, ?_, ?_, ?_, ?_, trivial⟩ <;> unfold Command.Forgets <;> decide +kernel

theorem retraces_savedWithin :
    ((start 0 ['a', 'b'] PlainText.mk).run savedWithin).buffer.history.undoDepth = 2 ∧
      ((start 0 ['a', 'b'] PlainText.mk).run savedWithin).buffer.history.redoDepth = 1 ∧
        ∃ b, Buffer.times Buffer.undo 2
          ((start 0 ['a', 'b'] PlainText.mk).run savedWithin).buffer = .ok b ∧
            b.doc.text = ['a', 'b'] := by
  have hundo :
      ((start 0 ['a', 'b'] PlainText.mk).run savedWithin).buffer.history.undoDepth = 2 := by
    decide +kernel
  have hall := (retraces 0 ['a', 'b'] PlainText.mk permits_savedWithin (by decide +kernel)
    (by decide +kernel)).2.2 remembers_savedWithin
  rw [hundo] at hall
  exact ⟨hundo, by decide +kernel, hall⟩

/-- An unmodified buffer holds the text that was saved last. While edits are recorded, it is
unmodified exactly if it is at the saved place of its history and has gathered nothing since, so
that undo and redo clear the flag where they come to that place and set it where they leave it. -/
theorem unmodified_iff_saved (id : Nat) (t : Text) (h : H) {cs : List (Command H)}
    (hcs : (start id t h).Permits cs) :
    let s := (start id t h).run cs
    (s.buffer.doc.modified = false → s.buffer.doc.text = s.saved) ∧
      (s.buffer.history.isRecording = true →
        (s.buffer.doc.modified = false ↔
          s.buffer.history.saved = some s.buffer.history.location ∧
            s.buffer.history.hasPending = false)) ∧
      (s.buffer.history.suspensions = 0 →
        (∀ b, s.buffer.undo = .ok b →
          (b.doc.modified = false ↔
            s.buffer.history.saved = some (s.buffer.history.location - 1))) ∧
        (∀ b, s.buffer.redo = .ok b →
          (b.doc.modified = false ↔
            s.buffer.history.saved = some (s.buffer.history.location + 1)))) := by
  have hv := (valid_start id t h).forget.run hcs fun h => absurd rfl h
  generalize (start id t h).run cs = s at hv
  have flagged {b : Buffer H} {texts : Nat → Text} {n : Nat}
      (hstanding : b.Standing (· ∈ s.landmarks) none s.saved texts)
      (hhistory : b.history = { s.buffer.history with location := n }) :
      b.doc.modified = false ↔ s.buffer.history.saved = some n := by
    have hflag := hstanding.flag
    rw [hhistory] at hflag
    exact hflag
  refine ⟨hv.coherent.clean, ?_, fun hsusp => ⟨?_, ?_⟩⟩
  · intro hrec
    obtain ⟨texts, -, -, hflag⟩ := hv.coherent.recorded hrec
    exact hflag
  · intro b hundo
    obtain ⟨⟨texts, hstanding⟩, hhistory, -, -⟩ := hv.coherent.standing_undo hsusp hundo
    exact flagged hstanding hhistory
  · intro b hredo
    obtain ⟨⟨texts, hstanding⟩, hhistory, -, -⟩ := hv.coherent.standing_redo hsusp hredo
    exact flagged hstanding hhistory

theorem unmodified_iff_saved_savedWithin :
    ((start 0 ['a', 'b'] PlainText.mk).run savedWithin).buffer.doc.modified = false ∧
      ((start 0 ['a', 'b'] PlainText.mk).run savedWithin).buffer.doc.text =
        ((start 0 ['a', 'b'] PlainText.mk).run savedWithin).saved := by
  have hunmodified : ((start 0 ['a', 'b'] PlainText.mk).run savedWithin).buffer.doc.modified =
      false := by decide +kernel
  exact ⟨hunmodified,
    (unmodified_iff_saved 0 ['a', 'b'] PlainText.mk permits_savedWithin).1 hunmodified⟩

end Session
end CodeBuffer
