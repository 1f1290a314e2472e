import CodeBuffer.Proofs.History.Commands

namespace CodeBuffer

open History (Timeline)

namespace Buffer

variable {H : Type} [Observer H] [Quiet H]

/-- A buffer at one of the places of a timeline. -/
structure Standing (L : Text → Prop) (origin : Option Text) (saved : Text) (texts : Nat → Text)
    (b : Buffer H) : Prop where
  timeline : Timeline L origin saved b.history texts
  closed : b.history.inUserAction = false
  settled : b.history.pending = none
  here : b.doc.text = texts b.history.location
  flag : b.doc.modified = false ↔ b.history.AtSaved

variable {L : Text → Prop} {origin : Option Text} {saved : Text} {texts : Nat → Text}
  {b b' : Buffer H}

omit [Observer H] [Quiet H] in
theorem Standing.alike (hs : b.Standing L origin saved texts) (h : b.Alike b') :
    b'.Standing L origin saved texts := by
  obtain ⟨htext, hmodified, hhistory, -⟩ := h
  refine ⟨?_, ?_, ?_, ?_, ?_⟩ <;> rw [hhistory]
  · exact hs.timeline
  · exact hs.closed
  · exact hs.settled
  · exact htext.trans hs.here
  · rw [hmodified]
    exact hs.flag

omit [Observer H] [Quiet H] in
/-- Where recording goes on and no user action is open, the buffer is at a place of a timeline. -/
theorem Coherent.standing (hc : b.Coherent L origin saved)
    (hrec : b.history.isRecording = true) (hd : b.actionDepth = 0) :
    ∃ texts, b.Standing L origin saved texts := by
  obtain ⟨texts, ht, hp, hflag⟩ := hc.recorded hrec
  have hclosed : b.history.inUserAction = false := by
    cases hopen : b.history.inUserAction with
    | false => rfl
    | true =>
      have := hc.open_iff.1 hopen
      omega
  have hsettled := hc.settled hclosed
  have hgathered : b.history.gathered = [] := by rw [History.gathered, hsettled]; rfl
  rw [hgathered] at hp
  refine ⟨texts, ht, hclosed, hsettled, ?_, hflag.trans ?_⟩
  · exact hp.eq_of_nil
  · rw [History.hasPending_eq, hgathered]
    exact ⟨And.left, fun h => ⟨h, rfl⟩⟩

/-- A replay of which no edit is refused and which leads to the place `n` of the timeline. -/
structure Arrives (L : Text → Prop) (origin : Option Text) (saved : Text) (texts : Nat → Text)
    (b : Buffer H) (steps : List ReplayCommand) (n : Nat) : Prop where
  accepts : b.Accepts steps
  standing : (b.replayAll steps { b.history with location := n }).Standing L origin saved texts
  history : (b.replayAll steps { b.history with location := n }).history =
    { b.history with location := n }
  actionDepth : (b.replayAll steps { b.history with location := n }).actionDepth = b.actionDepth

/-- The replay of a step, from one place of a timeline to another. -/
theorem Standing.arrives (hs : b.Standing L origin saved texts) {n : Nat}
    (hn : n ≤ b.history.steps.length) (hne : b.history.location ≠ n)
    {edits mark : List ReplayCommand} (hedits : b.Replays edits (texts n) b.doc.modified)
    (hmark : ∀ c : Buffer H, c.Replays mark c.doc.text c.doc.modified) :
    b.Arrives L origin saved texts
      (edits ++ b.history.flagCommand b.history.location n ++ mark) n := by
  obtain ⟨m, hflag, hm⟩ := Replays.flagCommand (edits.foldl Buffer.replay b) hne
    (hedits.modified ▸ hs.flag)
  have hboth := hedits.append hflag
  have hall := hboth.append (hmark _)
  obtain ⟨steps, hsteps⟩ : ∃ steps,
      steps = edits ++ b.history.flagCommand b.history.location n ++ mark := ⟨_, rfl⟩
  rw [← hsteps] at hall ⊢
  obtain ⟨c, hc⟩ : ∃ c : Buffer H, c =
      { steps.foldl Buffer.replay b with history := { b.history with location := n } } := ⟨_, rfl⟩
  have htext : c.doc.text = texts n := by
    rw [hc]
    exact hall.text.trans (hboth.text.trans hedits.text)
  have hmodified : c.doc.modified = m := by
    rw [hc]
    exact hall.modified.trans hboth.modified
  have hhistory : c.history = { b.history with location := n } := by rw [hc]
  have hdepth : c.actionDepth = b.actionDepth := by
    rw [hc]
    exact hall.actionDepth
  have hstanding : c.Standing L origin saved texts := by
    refine ⟨?_, ?_, ?_, ?_, ?_⟩ <;> rw [hhistory]
    · exact ⟨hn, hs.timeline.leads, hs.timeline.landmark, hs.timeline.saved, hs.timeline.origin⟩
    · exact hs.closed
    · exact hs.settled
    · exact htext
    · rw [hmodified]
      exact hm
  have hquiet := c.alike_cursorChanged
  have hreplay : b.replayAll steps { b.history with location := n } = c.cursorChanged := by
    rw [hc]
    rfl
  constructor
  · exact hall.accepts
  · rw [hreplay]
    exact hstanding.alike hquiet
  · rw [hreplay]
    exact hquiet.history.trans hhistory
  · rw [hreplay]
    exact hquiet.actionDepth.trans hdepth

/-- One place back. -/
theorem Standing.undo (hs : b.Standing L origin saved texts) (hlocation : 0 < b.history.location) :
    ∃ steps, b.history.undo =
        .ok (steps, { b.history with location := b.history.location - 1 }) ∧
      b.Arrives L origin saved texts steps (b.history.location - 1) := by
  have hle := hs.timeline.location_le
  obtain ⟨step, hstep⟩ : ∃ step, b.history.steps[b.history.location - 1]? = some step :=
    ⟨_, List.getElem?_eq_getElem (by omega)⟩
  have hleads := hs.timeline.leads (b.history.location - 1) step.actions
    (by rw [List.getElem?_map, hstep]; rfl)
  rw [Nat.sub_add_cancel hlocation, ← hs.here] at hleads
  have hcan : b.history.canUndo = true := by
    rw [History.canUndo, hs.closed]
    simpa using hlocation
  refine ⟨_, ?_, hs.arrives (n := b.history.location - 1) (by omega) (by omega)
    (.undoAll hleads) fun c => .head c (Replays.selectionBefore c) step.actions⟩
  rw [History.undo, if_pos hcan, hstep]

/-- One place on. -/
theorem Standing.redo (hs : b.Standing L origin saved texts)
    (hlocation : b.history.location < b.history.steps.length) :
    ∃ steps, b.history.redo =
        .ok (steps, { b.history with location := b.history.location + 1 }) ∧
      b.Arrives L origin saved texts steps (b.history.location + 1) := by
  obtain ⟨step, hstep⟩ : ∃ step, b.history.steps[b.history.location]? = some step :=
    ⟨_, List.getElem?_eq_getElem hlocation⟩
  have hleads := hs.timeline.leads b.history.location step.actions
    (by rw [List.getElem?_map, hstep]; rfl)
  rw [← hs.here] at hleads
  have hcan : b.history.canRedo = true := by
    rw [History.canRedo, hs.closed]
    simpa using hlocation
  refine ⟨_, ?_, hs.arrives (n := b.history.location + 1) (by omega) (by omega)
    (.redoAll hleads) fun c => .head c (Replays.selectionAfter c) step.actions⟩
  rw [History.redo, if_pos hcan, hstep]

/-- So many times the same. -/
def times (f : Buffer H → Except Fault (Buffer H)) : Nat → Buffer H → Except Fault (Buffer H)
  | 0, b => .ok b
  | k + 1, b => f b >>= times f k

/-- What is replayed next, if anything, holds no edit that the document refuses. -/
def AcceptsNext (f : History → Except Fault (List ReplayCommand × History)) (b : Buffer H) :
    Prop :=
  ∀ steps history, f b.history = .ok (steps, history) → b.Accepts steps

omit [Quiet H] in
/-- At the oldest place there is nothing to undo. -/
theorem acceptsUndo_of_oldest (hlocation : b.history.location = 0) :
    b.AcceptsNext History.undo := by
  intro steps history hundo
  rw [History.undo, if_neg (by simp [History.canUndo, hlocation])] at hundo
  cases hundo

omit [Quiet H] in
/-- At the newest place there is nothing to redo. -/
theorem acceptsRedo_of_newest (hlocation : b.history.steps.length ≤ b.history.location) :
    b.AcceptsNext History.redo := by
  intro steps history hredo
  rw [History.redo, if_neg (by simp [History.canRedo, hlocation])] at hredo
  cases hredo

theorem Standing.acceptsUndo (hs : b.Standing L origin saved texts) :
    b.AcceptsNext History.undo := by
  by_cases hlocation : b.history.location = 0
  · exact acceptsUndo_of_oldest hlocation
  · intro steps history hundo
    obtain ⟨steps', hundo', harrives⟩ := hs.undo (by omega)
    rw [hundo'] at hundo
    cases hundo
    exact harrives.accepts

theorem Standing.acceptsRedo (hs : b.Standing L origin saved texts) :
    b.AcceptsNext History.redo := by
  by_cases hlocation : b.history.steps.length ≤ b.history.location
  · exact acceptsRedo_of_newest hlocation
  · intro steps history hredo
    obtain ⟨steps', hredo', harrives⟩ := hs.redo (by omega)
    rw [hredo'] at hredo
    cases hredo
    exact harrives.accepts

theorem Standing.undoTimes (hs : b.Standing L origin saved texts) {k : Nat}
    (hk : k ≤ b.history.location) :
    ∃ b', times Buffer.undo k b = .ok b' ∧ b'.Standing L origin saved texts ∧
      b'.history = { b.history with location := b.history.location - k } := by
  induction k generalizing b with
  | zero => exact ⟨b, rfl, hs, rfl⟩
  | succ k ih =>
    obtain ⟨steps, hundo, harrives⟩ := hs.undo (by omega)
    obtain ⟨b', htimes, hs', hhistory⟩ := ih harrives.standing (by
      rw [harrives.history]
      simp only
      omega)
    refine ⟨b', ?_, hs', ?_⟩
    · rw [times, Buffer.undo, hundo]
      exact htimes
    · rw [hhistory, harrives.history]
      simp only [Nat.sub_sub, Nat.add_comm 1 k]

theorem Standing.redoTimes (hs : b.Standing L origin saved texts) {k : Nat}
    (hk : b.history.location + k ≤ b.history.steps.length) :
    ∃ b', times Buffer.redo k b = .ok b' ∧ b'.Standing L origin saved texts ∧
      b'.history = { b.history with location := b.history.location + k } := by
  induction k generalizing b with
  | zero => exact ⟨b, rfl, hs, rfl⟩
  | succ k ih =>
    obtain ⟨steps, hredo, harrives⟩ := hs.redo (by omega)
    obtain ⟨b', htimes, hs', hhistory⟩ := ih harrives.standing (by
      rw [harrives.history]
      simp only
      omega)
    refine ⟨b', ?_, hs', ?_⟩
    · rw [times, Buffer.redo, hredo]
      exact htimes
    · rw [hhistory, harrives.history]
      simp only [Nat.add_assoc, Nat.add_comm 1 k]

/-- The same text, the same flag, and as much to undo and to redo. -/
structure Restored (b b' : Buffer H) : Prop where
  text : b'.doc.text = b.doc.text
  modified : b'.doc.modified = b.doc.modified
  undoDepth : b'.history.undoDepth = b.history.undoDepth
  redoDepth : b'.history.redoDepth = b.history.redoDepth

omit [Observer H] [Quiet H] in
/-- At one place of a timeline there is one text and one flag. -/
theorem Standing.restored (hs : b.Standing L origin saved texts)
    (hs' : b'.Standing L origin saved texts) (hhistory : b'.history = b.history) :
    b.Restored b' := by
  refine ⟨?_, ?_, by rw [hhistory], by rw [hhistory]⟩
  · rw [hs'.here, hs.here, hhistory]
  · have hflag := hs'.flag
    rw [hhistory] at hflag
    have hsame := hflag.trans hs.flag.symm
    cases hm : b.doc.modified with
    | false => exact hsame.2 hm
    | true =>
      cases hm' : b'.doc.modified with
      | true => rfl
      | false =>
        rw [hsame.1 hm'] at hm
        cases hm

/-- So many undos, and as many redos from there. -/
theorem Standing.undo_redo (hs : b.Standing L origin saved texts) {k : Nat}
    (hk : k ≤ b.history.undoDepth) :
    ∃ b', times Buffer.undo k b = .ok b' ∧ L b'.doc.text ∧ b'.AcceptsNext History.undo ∧
      ∃ b'', times Buffer.redo k b' = .ok b'' ∧ b.Restored b'' := by
  have hle := hs.timeline.location_le
  have hk' : k ≤ b.history.location := hk
  obtain ⟨b', hundo, hback, hhistory⟩ := hs.undoTimes hk'
  have hroom : b'.history.location + k ≤ b'.history.steps.length := by
    rw [hhistory]
    simp only
    omega
  obtain ⟨b'', hredo, hagain, hhistory'⟩ := hback.redoTimes hroom
  have hsame : b''.history = b.history := by
    rw [hhistory', hhistory]
    simp only [Nat.sub_add_cancel hk']
  have hlandmark : L b'.doc.text := by
    rw [hback.here]
    exact hback.timeline.landmark _ hback.timeline.location_le
  exact ⟨b', hundo, hlandmark, hback.acceptsUndo, b'', hredo, hs.restored hagain hsame⟩

/-- So many redos, and as many undos from there. -/
theorem Standing.redo_undo (hs : b.Standing L origin saved texts) {k : Nat}
    (hk : k ≤ b.history.redoDepth) :
    ∃ b', times Buffer.redo k b = .ok b' ∧ b'.AcceptsNext History.redo ∧
      ∃ b'', times Buffer.undo k b' = .ok b'' ∧ b.Restored b'' := by
  have hle := hs.timeline.location_le
  have hk' : k ≤ b.history.steps.length - b.history.location := hk
  obtain ⟨b', hredo, hon, hhistory⟩ := hs.redoTimes (k := k) (by omega)
  have hroom : k ≤ b'.history.location := by
    rw [hhistory]
    exact Nat.le_add_left k _
  obtain ⟨b'', hundo, hagain, hhistory'⟩ := hon.undoTimes hroom
  have hsame : b''.history = b.history := by
    rw [hhistory', hhistory]
    simp only [Nat.add_sub_cancel]
  exact ⟨b', hredo, hon.acceptsRedo, b'', hundo, hs.restored hagain hsame⟩

/-- All the way back to the first text, if it is known. -/
theorem Standing.undo_all {t : Text} (hs : b.Standing L (some t) saved texts) :
    ∃ b', times Buffer.undo b.history.undoDepth b = .ok b' ∧ b'.doc.text = t := by
  obtain ⟨b', hundo, hback, hhistory⟩ := hs.undoTimes (Nat.le_refl _)
  refine ⟨b', hundo, ?_⟩
  rw [hback.here, hhistory]
  simp only [Nat.sub_self]
  exact hback.timeline.origin t rfl

omit [Observer H] [Quiet H] in
theorem Standing.coherent (hs : b.Standing L origin saved texts) (hd : b.actionDepth = 0)
    (hrec : b.history.isRecording = true) : b.Coherent L origin saved := by
  have hgathered : b.history.gathered = [] := by rw [History.gathered, hs.settled]; rfl
  refine ⟨?_, fun _ => hs.settled, ?_, ?_, fun _ => hrec, ?_⟩
  · rw [hs.closed, hd]
    exact ⟨fun h => (by cases h), fun h => absurd h (Nat.lt_irrefl 0)⟩
  · intro hm
    rw [hs.here]
    exact (hs.timeline.saved _ (hs.flag.1 hm)).2
  · intro _ hlimit
    exact absurd hlimit (History.isRecording_iff.1 hrec).2
  · intro _
    refine ⟨texts, hs.timeline, ?_, hs.flag.trans ?_⟩
    · rw [hgathered, hs.here]
      exact .nil _
    · rw [History.hasPending_eq, hgathered]
      exact ⟨fun h => ⟨h, rfl⟩, And.left⟩

omit [Observer H] [Quiet H] in
/-- Where there is something to undo or to redo, steps are recorded. -/
theorem Coherent.standing_of_steps (hc : b.Coherent L origin saved)
    (hclosed : b.history.inUserAction = false) (hsusp : b.history.suspensions = 0)
    (hsome : b.history.location ≠ 0 ∨ b.history.steps ≠ []) :
    b.actionDepth = 0 ∧ b.history.isRecording = true ∧
      ∃ texts, b.Standing L origin saved texts := by
  have hd : b.actionDepth = 0 := by
    by_cases hopen : 0 < b.actionDepth
    · rw [hc.open_iff.2 hopen] at hclosed
      cases hclosed
    · omega
  have hrec : b.history.isRecording = true := by
    refine History.isRecording_iff.2 ⟨hsusp, ?_⟩
    intro hlimit
    have hbare := hc.off hsusp hlimit
    exact hsome.elim (fun h => h hbare.location) (fun h => h hbare.steps)
  exact ⟨hd, hrec, hc.standing hrec hd⟩

/-- An undo goes one place back. -/
theorem Coherent.standing_undo (hc : b.Coherent L origin saved)
    (hsusp : b.history.suspensions = 0) (hundo : b.undo = .ok b') :
    (∃ texts, b'.Standing L origin saved texts) ∧
      b'.history = { b.history with location := b.history.location - 1 } ∧
        b'.actionDepth = 0 ∧ b.history.isRecording = true := by
  by_cases hcan : b.history.canUndo = true
  · obtain ⟨hclosed, hlocation⟩ : b.history.inUserAction = false ∧ 0 < b.history.location := by
      simpa [History.canUndo] using hcan
    obtain ⟨hd, hrec, texts, hs⟩ := hc.standing_of_steps hclosed hsusp (.inl (by omega))
    obtain ⟨steps, hsteps, harrives⟩ := hs.undo hlocation
    rw [Buffer.undo, hsteps] at hundo
    obtain rfl := Except.ok.inj hundo
    exact ⟨⟨texts, harrives.standing⟩, harrives.history, harrives.actionDepth.trans hd, hrec⟩
  · rw [Buffer.undo, History.undo, if_neg hcan] at hundo
    cases hundo

/-- A redo goes one place on. -/
theorem Coherent.standing_redo (hc : b.Coherent L origin saved)
    (hsusp : b.history.suspensions = 0) (hredo : b.redo = .ok b') :
    (∃ texts, b'.Standing L origin saved texts) ∧
      b'.history = { b.history with location := b.history.location + 1 } ∧
        b'.actionDepth = 0 ∧ b.history.isRecording = true := by
  by_cases hcan : b.history.canRedo = true
  · obtain ⟨hclosed, hlocation⟩ :
        b.history.inUserAction = false ∧ b.history.location < b.history.steps.length := by
      simpa [History.canRedo] using hcan
    obtain ⟨hd, hrec, texts, hs⟩ := hc.standing_of_steps hclosed hsusp
      (.inr (List.ne_nil_of_length_pos (by omega)))
    obtain ⟨steps, hsteps, harrives⟩ := hs.redo hlocation
    rw [Buffer.redo, hsteps] at hredo
    obtain rfl := Except.ok.inj hredo
    exact ⟨⟨texts, harrives.standing⟩, harrives.history, harrives.actionDepth.trans hd, hrec⟩
  · rw [Buffer.redo, History.redo, if_neg hcan] at hredo
    cases hredo

theorem Coherent.undo (hc : b.Coherent L origin saved) (hsusp : b.history.suspensions = 0)
    (hundo : b.undo = .ok b') : b'.Coherent L origin saved := by
  obtain ⟨⟨texts, hs⟩, hhistory, hd, hrec⟩ := hc.standing_undo hsusp hundo
  apply hs.coherent hd
  rw [hhistory]
  exact hrec

theorem Coherent.redo (hc : b.Coherent L origin saved) (hsusp : b.history.suspensions = 0)
    (hredo : b.redo = .ok b') : b'.Coherent L origin saved := by
  obtain ⟨⟨texts, hs⟩, hhistory, hd, hrec⟩ := hc.standing_redo hsusp hredo
  apply hs.coherent hd
  rw [hhistory]
  exact hrec

end Buffer
end CodeBuffer
