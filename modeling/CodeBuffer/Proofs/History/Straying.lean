import CodeBuffer.Proofs.History.Suspended

namespace CodeBuffer

namespace Command

variable {H : Type} [Observer H]

/-- Whether the command changes the text while nothing is recorded for the time being. Undo and redo
do not count. -/
def strays (b : Buffer H) : Command H → Bool
  | .undo | .redo => false
  | c => decide (0 < b.history.suspensions) && decide ((b.perform c).doc.text ≠ b.doc.text)

/-- Undo and redo. -/
def Replays : Command H → Prop
  | .undo | .redo => True
  | _ => False

theorem strays_eq_false_iff {b : Buffer H} {c : Command H} (hc : ¬c.Replays) :
    c.strays b = false ↔ (0 < b.history.suspensions → (b.perform c).doc.text = b.doc.text) := by
  have hstrays : c.strays b =
      (decide (0 < b.history.suspensions) && decide ((b.perform c).doc.text ≠ b.doc.text)) := by
    cases c with
    | undo => exact absurd trivial hc
    | redo => exact absurd trivial hc
    | _ => rfl
  rw [hstrays, Bool.and_eq_false_iff, decide_eq_false_iff_not, decide_eq_false_iff_not,
    Decidable.not_not]
  exact ⟨fun h hpos => h.resolve_left fun hnot => hnot hpos,
    fun h => Decidable.or_iff_not_imp_left.2 fun hpos => h (Decidable.not_not.1 hpos)⟩

omit [Observer H] in
/-- Whether the command ends the outermost suspension, so that nothing is left to undo. -/
def resumes (b : Buffer H) : Command H → Bool
  | .endNotUndoable => b.history.suspensions == 1
  | _ => false

end Command

namespace Buffer.Traced

variable {H : Type} [Observer H] [Quiet H] {L : Text → Prop} {known : Prop} {b : Buffer H}

theorem perform (hb : b.Traced L known) (c : Command H) (hL : L (b.perform c).doc.text) :
    (b.perform c).Traced L (c.resumes b = true ∨ known ∧ c.strays b = false) := by
  -- the commands that neither resume nor stray
  have still (hc : (b.perform c).Traced L known) (hresumes : c.resumes b = false)
      (hstrays : c.strays b = false) :
      (b.perform c).Traced L (c.resumes b = true ∨ known ∧ c.strays b = false) := by
    refine hc.congr ?_
    rw [hresumes, hstrays]
    exact ⟨fun h => (h.resolve_left Bool.false_ne_true).1, fun h => .inr ⟨h, rfl⟩⟩
  have edits (hc : (b.perform c).Traced L
      (known ∧ (0 < b.history.suspensions → (b.perform c).doc.text = b.doc.text)))
      (hresumes : c.resumes b = false) (hreplays : ¬c.Replays) :
      (b.perform c).Traced L (c.resumes b = true ∨ known ∧ c.strays b = false) := by
    refine hc.congr ?_
    rw [hresumes, Command.strays_eq_false_iff hreplays]
    exact ⟨fun h => h.resolve_left Bool.false_ne_true, .inr⟩
  have views (hc : b.Alike (b.perform c)) (hresumes : c.resumes b = false)
      (hreplays : ¬c.Replays) :
      (b.perform c).Traced L (c.resumes b = true ∨ known ∧ c.strays b = false) :=
    still (hb.alike hc) hresumes ((Command.strays_eq_false_iff hreplays).2 fun _ => hc.text)
  cases c with
  | insert o t => exact edits (hb.edit (.insert o t) hL) rfl id
  | delete start stop => exact edits (hb.edit (.delete start stop) hL) rfl id
  | type t => exact edits (hb.stroke trivial hL) rfl id
  | backspace => exact edits (hb.stroke trivial hL) rfl id
  | deleteKey => exact edits (hb.stroke trivial hL) rfl id
  | deleteSelection => exact edits (hb.stroke trivial hL) rfl id
  | placeCursor o => exact views (b.alike_placeCursor o) rfl id
  | selectRange insert bound => exact views (b.alike_selectRange insert bound) rfl id
  | beginUserAction =>
    exact still hb.beginUserAction rfl ((Command.strays_eq_false_iff id).2 fun _ => rfl)
  | endUserAction =>
    have htext : (b.perform .endUserAction).doc.text = b.doc.text := by
      rw [perform_endUserAction]
      split
      · rfl
      · exact b.text_finishUserAction
    refine still ?_ rfl ((Command.strays_eq_false_iff id).2 fun _ => htext)
    rw [perform_endUserAction] at hL ⊢
    split at hL
    · rename_i hclosed
      rw [if_pos hclosed]
      exact hb
    · rename_i hopen
      rw [if_neg hopen]
      exact hb.finishUserAction (by omega) hL
  | undo =>
    refine still ?_ rfl rfl
    by_cases hcan : b.history.canUndo = true
    · obtain ⟨steps, history, b', -, hundo, hb', -⟩ := hb.undo hcan
      rw [Buffer.perform, hundo]
      exact hb'
    · rw [Buffer.perform, Buffer.undo, History.undo, if_neg hcan]
      exact hb
  | redo =>
    refine still ?_ rfl rfl
    by_cases hcan : b.history.canRedo = true
    · obtain ⟨steps, history, b', -, hredo, hb', -⟩ := hb.redo hcan
      rw [Buffer.perform, hredo]
      exact hb'
    · rw [Buffer.perform, Buffer.redo, History.redo, if_neg hcan]
      exact hb
  | setModified modified =>
    have htext : (b.setModified modified).doc.text = b.doc.text := by
      unfold Buffer.setModified
      split <;> rfl
    rw [Buffer.perform, htext] at hL
    exact still (hb.setModified hL modified) rfl
      ((Command.strays_eq_false_iff id).2 fun _ => htext)
  | setUndoLimit limit =>
    exact still (hb.setUndoLimit hL limit) rfl ((Command.strays_eq_false_iff id).2 fun _ => rfl)
  | beginNotUndoable =>
    exact still ⟨hb.history.beginNotUndoable, hb.open_iff⟩ rfl
      ((Command.strays_eq_false_iff id).2 fun _ => rfl)
  | endNotUndoable =>
    have htext : (b.perform .endNotUndoable).doc.text = b.doc.text := by
      rw [Buffer.perform, Buffer.endNotUndoable]
      cases b.history.endNotUndoable <;> rfl
    have hstrays : (Command.endNotUndoable : Command H).strays b = false :=
      (Command.strays_eq_false_iff id).2 fun _ => htext
    rw [htext] at hL
    cases hended : b.endNotUndoable with
    | error fault =>
      refine still ?_ ?_ hstrays
      · rw [Buffer.perform, hended]
        exact hb
      · rw [Command.resumes, beq_eq_false_iff_ne]
        intro hone
        rw [Buffer.endNotUndoable, History.endNotUndoable, hone] at hended
        cases hended
    | ok b' =>
      rw [Buffer.perform, hended]
      refine (hb.endNotUndoable hL hended).congr ?_
      rw [Command.resumes, beq_iff_eq, hstrays]
      exact ⟨Or.imp_right And.left, Or.imp_right fun h => ⟨h, rfl⟩⟩
  | setHighlightSyntax on => exact views (b.alike_setHighlightSyntax on) rfl id
  | setHighlightBrackets on => exact views (b.alike_setHighlightBrackets on) rfl id
  | updateBrackets => exact views b.alike_updateBrackets rfl id
  | setMatcher m => exact views ⟨rfl, rfl, rfl, rfl⟩ rfl id
  | setScheme s => exact views (b.alike_setScheme s) rfl id
  | ensureHighlighted start stop => exact views (b.alike_ensureHighlighted start stop) rfl id
  | requestHighlight start stop => exact views (b.alike_requestHighlight start stop) rfl id
  | runIdleSlice => exact views b.alike_runIdleSlice rfl id
  | modifyObserver f => exact views (b.alike_modifyObserver _) rfl id

end Buffer.Traced

/-- What may happen to a buffer: a command, or a change behind its back that leaves the text
alone. -/
inductive CourseEvent (H : Type) where
  | command (c : Command H)
  | adjust (f : Document → Document) (keeps : ∀ d, (f d).text = d.text)

/-- A buffer in use, with the texts that it had. It has `strayed` if unrecorded edits have changed
the text since recording was suspended. -/
structure Course (H : Type) where
  buffer : Buffer H
  texts : List Text
  strayed : Bool

namespace Course

variable {H : Type} [Observer H]

def start (id : Nat) (t : Text) (h : H) : Course H := ⟨.new id t h, [t], false⟩

def step (s : Course H) : CourseEvent H → Course H
  | .command c =>
    let b := s.buffer.perform c
    { buffer := b
      texts := b.doc.text :: s.texts
      strayed := !c.resumes s.buffer && (s.strayed || c.strays s.buffer) }
  | .adjust f _ => { s with buffer := s.buffer.modifyDocument f }

def run (s : Course H) (es : List (CourseEvent H)) : Course H := es.foldl step s

/-- The history leads to the text unless the buffer has strayed. -/
def Sound (s : Course H) : Prop := s.buffer.Traced (· ∈ s.texts) (s.strayed = false)

variable [Quiet H] {s : Course H}

theorem sound_start (id : Nat) (t : Text) (h : H) : (start id t h).Sound := by
  have htext : (Buffer.new id t h).doc.text = t := (Quiet.attach h (Document.new id t)).text_eq
  have hbare : History.empty.Bare := ⟨rfl, rfl, rfl, fun i hi => (Option.some.inj hi).symm⟩
  refine ⟨.of_bare History.kept_empty hbare ?_ fun hnot => absurd rfl hnot, ?_⟩
  · rw [show (start id t h).buffer.doc.text = t from htext]
    exact List.mem_singleton_self t
  · exact ⟨fun h => (by cases h), fun h => absurd h (Nat.lt_irrefl 0)⟩

theorem Sound.step (hs : s.Sound) (e : CourseEvent H) : (s.step e).Sound := by
  cases e with
  | command c =>
    have hmore : s.buffer.Traced (· ∈ (s.step (.command c)).texts) (s.strayed = false) :=
      Buffer.Traced.mono hs fun _ ht => List.mem_cons_of_mem _ ht
    refine (hmore.perform c List.mem_cons_self).congr ?_
    simp only [Course.step, Bool.and_eq_false_iff, Bool.not_eq_false', Bool.or_eq_false_iff]
  | adjust f keeps =>
    refine ⟨?_, hs.open_iff⟩
    have htext : (s.step (.adjust f keeps)).buffer.doc.text = s.buffer.doc.text := keeps _
    rw [htext]
    exact hs.history

theorem Sound.run (hs : s.Sound) (es : List (CourseEvent H)) : (s.run es).Sound := by
  induction es generalizing s with
  | nil => exact hs
  | cons e es ih => exact ih (hs.step e)

/-- Unless unrecorded edits have changed the text, what can be undone or done again is replayed
without a refusal and leads to a text that the buffer had before. It is only while recording is
suspended that a buffer has strayed. -/
theorem replays_unstrayed (id : Nat) (t : Text) (h : H) (es : List (CourseEvent H)) :
    let s := (start id t h).run es
    (s.strayed = false →
      (s.buffer.history.canUndo = true → ∃ steps history b,
        s.buffer.history.undo = .ok (steps, history) ∧ s.buffer.Accepts steps ∧
          s.buffer.undo = .ok b ∧ b.doc.text ∈ s.texts) ∧
      (s.buffer.history.canRedo = true → ∃ steps history b,
        s.buffer.history.redo = .ok (steps, history) ∧ s.buffer.Accepts steps ∧
          s.buffer.redo = .ok b ∧ b.doc.text ∈ s.texts)) ∧
      (s.buffer.history.suspensions = 0 → s.strayed = false) := by
  have hs := (sound_start id t h).run es
  generalize (start id t h).run es = s at hs
  refine ⟨fun hstrayed => ⟨fun hcan => ?_, fun hcan => ?_⟩, fun hzero => ?_⟩
  · obtain ⟨steps, history, b, hsteps, hundo, -, hback⟩ := hs.undo hcan
    obtain ⟨haccepts, htext⟩ := hback hstrayed
    exact ⟨steps, history, b, hsteps, haccepts, hundo, htext⟩
  · obtain ⟨steps, history, b, hsteps, hredo, -, hback⟩ := hs.redo hcan
    obtain ⟨haccepts, htext⟩ := hback hstrayed
    exact ⟨steps, history, b, hsteps, haccepts, hredo, htext⟩
  · by_cases hstrayed : s.strayed = false
    · exact hstrayed
    · exact absurd hzero (Nat.ne_of_gt (hs.history.suspended hstrayed))

/-- A word is typed, and once more in its own place while recording is suspended. -/
def retyped : List (CourseEvent PlainText) :=
  [.command (.insert 1 ['a', 'b']), .command .beginNotUndoable,
    .adjust (·.selectRange 1 3) fun _ => rfl, .command (.type ['a', 'b'])]

theorem replays_unstrayed_retyped :
    ((start 0 ['x'] PlainText.mk).run retyped).buffer.history.suspensions = 1 ∧
      ((start 0 ['x'] PlainText.mk).run retyped).strayed = false ∧
      ∃ steps history b,
        ((start 0 ['x'] PlainText.mk).run retyped).buffer.history.undo = .ok (steps, history) ∧
          ((start 0 ['x'] PlainText.mk).run retyped).buffer.Accepts steps ∧
          ((start 0 ['x'] PlainText.mk).run retyped).buffer.undo = .ok b ∧
          b.doc.text ∈ ((start 0 ['x'] PlainText.mk).run retyped).texts := by
  have hunstrayed : ((start 0 ['x'] PlainText.mk).run retyped).strayed = false := by
    decide +kernel
  exact ⟨by decide +kernel, hunstrayed,
    ((replays_unstrayed 0 ['x'] PlainText.mk retyped).1 hunstrayed).1 (by decide +kernel)⟩

/-- A word is typed, and another one before it while recording is suspended. -/
def strayedBefore : List (CourseEvent PlainText) :=
  [.command (.insert 1 ['a', 'b']), .command .beginNotUndoable, .command (.insert 0 ['z', 'z'])]

/-- The undo takes the wrong letters away, and comes to a text that the buffer never had. -/
theorem not_replays_strayedBefore :
    ((start 0 ['x'] PlainText.mk).run strayedBefore).buffer.history.canUndo = true ∧
      ∃ b, ((start 0 ['x'] PlainText.mk).run strayedBefore).buffer.undo = .ok b ∧
        b.doc.text = ['z', 'a', 'b'] ∧
        b.doc.text ∉ ((start 0 ['x'] PlainText.mk).run strayedBefore).texts := by
  refine ⟨by decide +kernel, _, rfl, ?_, ?_⟩
  · decide +kernel
  · decide +kernel

end Course
end CodeBuffer
