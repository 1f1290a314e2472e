import CodeBuffer.Proofs.History.Attempts
import CodeBuffer.Proofs.History.Tracing

namespace CodeBuffer
namespace History

/-- The steps of a history that keeps to its limit lead to the text, as long as that is `known`.
What is not known was lost while recording was suspended. -/
structure Traced (L : Text → Prop) (known : Prop) (t : Text) (h : History) : Prop where
  kept : h.Kept
  traces : known → h.limit ≠ 0 → ∃ saved, h.Traces L saved t
  suspended : ¬known → 0 < h.suspensions

variable {L L' : Text → Prop} {known : Prop} {t t' : Text} {h g : History} {a : Action}

/-- No edit is recorded without a limit. -/
theorem Kept.bare (hk : h.Kept) (hlimit : h.limit = 0) : h.Bare := by
  have hsteps : h.steps = [] := by
    have := hk.within (by omega)
    exact List.eq_nil_of_length_eq_zero (by omega)
  have hlength : h.steps.length = 0 := by rw [hsteps]; rfl
  have hle := hk.location_le
  refine ⟨hsteps, by omega, ?_, fun s hs => ?_⟩
  · by_cases hp : h.pending = none
    · exact hp
    · exact absurd hlimit (hk.gathers hp).2
  · have := hk.saved_le s hs
    omega

theorem sameMode_edited (h : History) (a : Action) (m : Bool) : h.SameMode (h.edited a m) := by
  have hrecord : h.SameMode (h.record a) := by
    unfold record
    split
    · exact h.sameMode_push a
    · exact .refl h
  unfold edited
  split
  · exact hrecord
  · exact hrecord.trans (sameMode_modifiedChanged _ true)

namespace Traced

theorem mono (ht : h.Traced L known t) (hL : ∀ t, L t → L' t) : h.Traced L' known t :=
  { ht with traces := fun hknown hlimit =>
      (ht.traces hknown hlimit).imp fun _ ht => ht.mono hL }

/-- A history that knows the present text only. -/
theorem of_bare (hk : h.Kept) (hb : h.Bare) (hL : L t) (hknown : ¬known → 0 < h.suspensions) :
    h.Traced L known t :=
  ⟨hk, fun _ _ => ⟨t, hb.traces hL fun _ => rfl⟩, hknown⟩

theorem edited (ht : h.Traced L known t) (hrec : h.isRecording = true) (ha : a.Leads t t')
    (hL : h.inUserAction = false → L t') (m : Bool) : (h.edited a m).Traced L known t' := by
  have hmode := h.sameMode_edited a m
  have hrecord : h.record a = h.push a := if_pos hrec
  have hkept := ht.kept.push hrec a
  refine ⟨?_, fun hknown hlimit => ?_, fun hnot => hmode.suspensions ▸ ht.suspended hnot⟩
  · rw [History.edited, hrecord]
    split
    · exact hkept
    · exact hkept.modifiedChanged true
  · rw [hmode.limit] at hlimit
    obtain ⟨saved, htraces⟩ := ht.traces hknown hlimit
    have hpushed := htraces.push ha hlimit hL
    refine ⟨saved, ?_⟩
    rw [History.edited, hrecord]
    split
    · exact hpushed
    · exact hpushed.changed

theorem closePending (ht : h.Traced L known t) (hL : L t) : h.closePending.Traced L known t := by
  have hmode := h.sameMode_closePending
  refine ⟨ht.kept.closePending, fun hknown hlimit => ?_,
    fun hnot => hmode.suspensions ▸ ht.suspended hnot⟩
  rw [hmode.limit] at hlimit
  exact (ht.traces hknown hlimit).imp fun _ ht => ht.closePending hlimit fun _ => hL

theorem beginUserAction (ht : h.Traced L known t) : h.beginUserAction.Traced L known t :=
  ⟨ht.kept.call .beginUserAction,
    fun hknown hlimit => (ht.traces hknown hlimit).imp fun _ ht => ht.of_eq rfl rfl rfl rfl,
    ht.suspended⟩

theorem finishUserAction (ht : h.Traced L known t) (hL : L t) :
    h.finishUserAction.Traced L known t := by
  have hclosed := ht.closePending hL
  exact ⟨ht.kept.finishUserAction,
    fun hknown hlimit => (hclosed.traces hknown hlimit).imp fun _ ht => ht.of_eq rfl rfl rfl rfl,
    hclosed.suspended⟩

theorem modifiedChanged (ht : h.Traced L known t) (hL : L t) (m : Bool) :
    (h.modifiedChanged m).Traced L known t := by
  have hmode := h.sameMode_modifiedChanged m
  refine ⟨ht.kept.modifiedChanged m, fun hknown hlimit => ?_,
    fun hnot => hmode.suspensions ▸ ht.suspended hnot⟩
  rw [hmode.limit] at hlimit
  obtain ⟨saved, htraces⟩ := ht.traces hknown hlimit
  cases m with
  | true => exact ⟨saved, htraces.changed⟩
  | false =>
    cases hrec : h.isRecording with
    | true => exact ⟨t, htraces.save hrec ht.kept.settled hL⟩
    | false =>
      rw [modifiedChanged_of_off hrec]
      exact ⟨saved, htraces⟩

theorem setLimit (ht : h.Traced L known t) (hL : L t) (limit : Int) :
    (h.setLimit limit).Traced L known t := by
  have hkept := ht.kept.setLimit limit
  unfold History.setLimit at hkept ⊢
  dsimp only at hkept ⊢
  split at hkept
  · rename_i hsame
    rw [if_pos hsame]
    exact ht
  · rename_i hother
    rw [if_neg hother]
    obtain ⟨g, hg⟩ : ∃ g, g = { h with limit := max limit (-1) } := ⟨_, rfl⟩
    rw [← hg] at hkept ⊢
    have hmode := g.sameMode_trim
    refine ⟨hkept, fun hknown hlimit => ?_, fun hnot => ?_⟩
    · rw [hmode.limit] at hlimit
      by_cases hzero : h.limit = 0
      · have hbare := ht.kept.bare hzero
        have hbare' : g.Bare := by
          rw [hg]
          exact ⟨hbare.steps, hbare.location, hbare.pending, hbare.saved⟩
        rw [trim_of_bare hbare' hlimit]
        exact ⟨t, hbare'.traces hL fun _ => rfl⟩
      · refine (ht.traces hknown hzero).imp fun _ ht => Traces.trim ?_ hlimit
        rw [hg]
        exact ht.of_eq rfl rfl rfl rfl
    · rw [hmode.suspensions, hg]
      exact ht.suspended hnot

theorem beginNotUndoable (ht : h.Traced L known t) : h.beginNotUndoable.Traced L known t :=
  ⟨ht.kept.call .beginNotUndoable,
    fun hknown hlimit => (ht.traces hknown hlimit).imp fun _ ht => ht.of_eq rfl rfl rfl rfl,
    fun _ => Nat.succ_pos _⟩

/-- The end of the outermost suspension makes up for what was lost. -/
theorem endNotUndoable (ht : h.Traced L known t) (hL : L t) (hg : h.endNotUndoable = .ok g) :
    g.Traced L (h.suspensions = 1 ∨ known) t := by
  have hkept := ht.kept.call .endNotUndoable
  rw [show h.call .endNotUndoable = g by rw [call, hg]; rfl] at hkept
  unfold History.endNotUndoable at hg
  split at hg
  · cases hg
  · rename_i hone
    obtain rfl := Except.ok.inj hg
    exact .of_bare hkept (bare_clear _) hL fun hnot => absurd (.inl hone) hnot
  · rename_i n hmore
    obtain rfl := Except.ok.inj hg
    refine ⟨hkept, fun hknown hlimit => ?_, fun _ => Nat.succ_pos n⟩
    have hstill : known := hknown.resolve_left (by omega)
    exact (ht.traces hstill hlimit).imp fun _ ht => ht.of_eq rfl rfl rfl rfl

end Traced
end History

namespace Buffer

variable {H : Type} [Observer H] {L L' : Text → Prop} {known known' : Prop} {b b' : Buffer H}

/-- A buffer whose history leads to its text, as long as that is `known`. -/
structure Traced (L : Text → Prop) (known : Prop) (b : Buffer H) : Prop where
  history : b.history.Traced L known b.doc.text
  open_iff : b.history.inUserAction = true ↔ 0 < b.actionDepth

theorem attempt_cases (b : Buffer H) [Quiet H] (a : Attempt) :
    b.attempt a = b ∨ ∃ e, b.Edited e (b.attempt a) := by
  cases a with
  | insert o t => exact b.tryInsert_cases o t
  | delete start stop => exact b.tryDelete_cases start stop

theorem text_finishUserAction (b : Buffer H) [Quiet H] :
    b.finishUserAction.doc.text = b.doc.text := by
  unfold Buffer.finishUserAction
  split
  · exact (alike_cursorChanged _).text
  · rfl

/-- Without recording, edits leave no trace in the history. -/
theorem attemptAll_of_off [Quiet H] (hrec : b.history.isRecording = false) (as : List Attempt) :
    (b.attemptAll as).history = b.history ∧ (b.attemptAll as).actionDepth = b.actionDepth := by
  induction as generalizing b with
  | nil => exact ⟨rfl, rfl⟩
  | cons a as ih =>
    have hsame : (b.attempt a).history = b.history ∧
        (b.attempt a).actionDepth = b.actionDepth := by
      rcases b.attempt_cases a with heq | ⟨e, hedited⟩
      · rw [heq]
        exact ⟨rfl, rfl⟩
      · exact ⟨hedited.history.trans (History.edited_of_off hrec e _), hedited.actionDepth⟩
    obtain ⟨hhistory, hdepth⟩ := ih (b := b.attempt a) (by rw [hsame.1]; exact hrec)
    exact ⟨hhistory.trans hsame.1, hdepth.trans hsame.2⟩

theorem actionDepth_foldl_replay (b : Buffer H) (steps : List ReplayCommand) :
    (steps.foldl replay b).actionDepth = b.actionDepth := by
  obtain ⟨doc, observer, heq⟩ := b.foldl_replay_eq steps
  rw [heq]

namespace Traced

omit [Observer H] in
theorem mono (hb : b.Traced L known) (hL : ∀ t, L t → L' t) : b.Traced L' known :=
  ⟨hb.history.mono hL, hb.open_iff⟩

omit [Observer H] in
theorem congr (hb : b.Traced L known) (h : known' ↔ known) : b.Traced L known' :=
  propext h ▸ hb

omit [Observer H] in
theorem alike (hb : b.Traced L known) (h : b.Alike b') : b'.Traced L known := by
  refine ⟨?_, ?_⟩
  · rw [h.history, h.text]
    exact hb.history
  · rw [h.history, h.actionDepth]
    exact hb.open_iff

variable [Quiet H]

theorem attempt (hb : b.Traced L known) (hrec : b.history.isRecording = true) (a : Attempt)
    (hL : b.actionDepth = 0 → L (b.attempt a).doc.text) :
    (b.attempt a).Traced L known ∧ (b.attempt a).actionDepth = b.actionDepth ∧
      (b.attempt a).history.isRecording = true := by
  rcases b.attempt_cases a with heq | ⟨e, hedited⟩
  · rw [heq]
    exact ⟨hb, rfl, hrec⟩
  · have hmode := b.history.sameMode_edited e b.doc.modified
    refine ⟨⟨?_, ?_⟩, hedited.actionDepth, ?_⟩
    · rw [hedited.history]
      refine hb.history.edited hrec hedited.leads (fun hclosed => hL ?_) _
      have hnot : ¬0 < b.actionDepth := fun hopen => by
        rw [hb.open_iff.2 hopen] at hclosed
        cases hclosed
      omega
    · rw [hedited.history, hmode.inUserAction, hedited.actionDepth]
      exact hb.open_iff
    · rw [hedited.history]
      exact hmode.isRecording_eq.trans hrec

theorem attemptAll_of_recording (hb : b.Traced L known) (hrec : b.history.isRecording = true)
    (hopen : 0 < b.actionDepth) (as : List Attempt) :
    (b.attemptAll as).Traced L known ∧ (b.attemptAll as).actionDepth = b.actionDepth := by
  induction as generalizing b with
  | nil => exact ⟨hb, rfl⟩
  | cons a as ih =>
    obtain ⟨hb', hdepth, hrec'⟩ := hb.attempt hrec a fun hzero => by omega
    obtain ⟨hall, hdepth'⟩ := ih hb' hrec' (by omega)
    exact ⟨hall, hdepth'.trans hdepth⟩

/-- Without recording, the history leads to the present text if that is the former one. -/
theorem attemptAll_of_off (hb : b.Traced L known) (hrec : b.history.isRecording = false)
    (as : List Attempt) : (b.attemptAll as).Traced L
      (known ∧ (0 < b.history.suspensions → (b.attemptAll as).doc.text = b.doc.text)) := by
  obtain ⟨hhistory, hdepth⟩ := Buffer.attemptAll_of_off hrec as
  have hpos {n : Nat} (hnot : ¬n = 0) : 0 < n := Nat.pos_of_ne_zero hnot
  refine ⟨⟨?_, fun hknown hlimit => ?_, fun hnot => ?_⟩, ?_⟩
  · rw [hhistory]
    exact hb.history.kept
  · rw [hhistory] at hlimit ⊢
    have hsusp : 0 < b.history.suspensions := hpos fun hzero => by
      rw [History.isRecording_iff.2 ⟨hzero, hlimit⟩] at hrec
      cases hrec
    rw [hknown.2 hsusp]
    exact hb.history.traces hknown.1 hlimit
  · rw [hhistory]
    refine hpos fun hzero => hnot ⟨?_, fun h => absurd hzero (Nat.ne_of_gt h)⟩
    by_cases hknown : known
    · exact hknown
    · exact absurd hzero (Nat.ne_of_gt (hb.history.suspended hknown))
  · rw [hhistory, hdepth]
    exact hb.open_iff

omit [Observer H] [Quiet H] in
theorem known_iff_of_recording (hrec : b.history.isRecording = true) {p : Prop} :
    known ∧ (0 < b.history.suspensions → p) ↔ known := by
  rw [(History.isRecording_iff.1 hrec).1]
  exact ⟨And.left, fun h => ⟨h, fun hpos => absurd hpos (Nat.lt_irrefl 0)⟩⟩

theorem attemptAll (hb : b.Traced L known) (hopen : 0 < b.actionDepth) (as : List Attempt) :
    (b.attemptAll as).Traced L
        (known ∧ (0 < b.history.suspensions → (b.attemptAll as).doc.text = b.doc.text)) ∧
      (b.attemptAll as).actionDepth = b.actionDepth := by
  cases hrec : b.history.isRecording with
  | true =>
    obtain ⟨hall, hdepth⟩ := hb.attemptAll_of_recording hrec hopen as
    exact ⟨hall.congr (known_iff_of_recording hrec), hdepth⟩
  | false => exact ⟨hb.attemptAll_of_off hrec as, (Buffer.attemptAll_of_off hrec as).2⟩

omit [Observer H] [Quiet H] in
theorem beginUserAction (hb : b.Traced L known) : b.beginUserAction.Traced L known := by
  unfold Buffer.beginUserAction
  refine ⟨?_, ?_⟩
  · dsimp only
    split
    · exact hb.history.beginUserAction
    · exact hb.history
  · dsimp only
    split
    · exact ⟨fun _ => Nat.succ_pos _, fun _ => rfl⟩
    · exact hb.open_iff.trans ⟨fun _ => Nat.succ_pos _, fun _ => by omega⟩

theorem finishUserAction (hb : b.Traced L known) (hopen : 0 < b.actionDepth)
    (hL : L b.finishUserAction.doc.text) : b.finishUserAction.Traced L known := by
  unfold Buffer.finishUserAction at hL ⊢
  split at hL
  · rename_i hlast
    rw [if_pos hlast]
    rw [(alike_cursorChanged _).text] at hL
    refine Traced.alike ⟨?_, ?_⟩ (alike_cursorChanged _)
    · exact hb.history.finishUserAction hL
    · exact ⟨fun h => (by cases h), fun h => absurd h (Nat.lt_irrefl 0)⟩
  · rename_i hinner
    rw [if_neg hinner]
    exact ⟨hb.history, hb.open_iff.trans ⟨fun _ => by dsimp only; omega, fun _ => hopen⟩⟩

/-! What a command preserves -/

theorem edit (hb : b.Traced L known) (a : Attempt) (hL : L (b.attempt a).doc.text) :
    (b.attempt a).Traced L
      (known ∧ (0 < b.history.suspensions → (b.attempt a).doc.text = b.doc.text)) := by
  cases hrec : b.history.isRecording with
  | true => exact (hb.attempt hrec a fun _ => hL).1.congr (known_iff_of_recording hrec)
  | false => exact hb.attemptAll_of_off hrec [a]

theorem actOut (hb : b.Traced L known) (as : List Attempt) (hL : L (b.actOut as).doc.text) :
    (b.actOut as).Traced L
      (known ∧ (0 < b.history.suspensions → (b.actOut as).doc.text = b.doc.text)) := by
  have hsusp : b.beginUserAction.history.suspensions = b.history.suspensions := by
    unfold Buffer.beginUserAction
    dsimp only
    split <;> rfl
  have htext : (b.actOut as).doc.text = (b.beginUserAction.attemptAll as).doc.text :=
    text_finishUserAction _
  obtain ⟨hall, hdepth⟩ := hb.beginUserAction.attemptAll (Nat.succ_pos _) as
  rw [hsusp, ← htext] at hall
  exact hall.finishUserAction (hdepth ▸ Nat.succ_pos _) hL

theorem stroke (hb : b.Traced L known) {c : Command H} (hc : c.IsStroke)
    (hL : L (b.perform c).doc.text) : (b.perform c).Traced L
      (known ∧ (0 < b.history.suspensions → (b.perform c).doc.text = b.doc.text)) := by
  rcases b.perform_stroke hc with heq | ⟨as, heq, -⟩
  · rw [heq]
    exact hb.congr ⟨And.left, fun h => ⟨h, fun _ => rfl⟩⟩
  · rw [heq] at hL ⊢
    exact hb.actOut as hL

omit [Observer H] [Quiet H] in
theorem setModified (hb : b.Traced L known) (hL : L b.doc.text) (m : Bool) :
    (b.setModified m).Traced L known := by
  have hmode := b.history.sameMode_modifiedChanged m
  unfold Buffer.setModified
  split
  · exact hb
  · refine ⟨hb.history.modifiedChanged hL m, ?_⟩
    rw [hmode.inUserAction]
    exact hb.open_iff

omit [Observer H] [Quiet H] in
theorem setUndoLimit (hb : b.Traced L known) (hL : L b.doc.text) (limit : Int) :
    (b.setUndoLimit limit).Traced L known := by
  have hset := hb.history.setLimit hL limit
  have hopen : (b.history.setLimit limit).inUserAction = b.history.inUserAction := by
    unfold History.setLimit
    dsimp only
    split
    · rfl
    · exact (History.sameMode_trim _).inUserAction
  have hmode := (b.history.setLimit limit).sameMode_modifiedChanged b.doc.modified
  unfold Buffer.setUndoLimit
  dsimp only
  split
  · refine ⟨hset.modifiedChanged hL b.doc.modified, ?_⟩
    rw [hmode.inUserAction, hopen]
    exact hb.open_iff
  · refine ⟨hset, ?_⟩
    rw [hopen]
    exact hb.open_iff

omit [Observer H] [Quiet H] in
theorem endNotUndoable (hb : b.Traced L known) (hL : L b.doc.text)
    (hended : b.endNotUndoable = .ok b') : b'.Traced L (b.history.suspensions = 1 ∨ known) := by
  unfold Buffer.endNotUndoable at hended
  cases hg : b.history.endNotUndoable with
  | error fault =>
    rw [hg] at hended
    cases hended
  | ok g =>
    rw [hg] at hended
    obtain rfl := Except.ok.inj hended
    have hopen : g.inUserAction = b.history.inUserAction := by
      unfold History.endNotUndoable at hg
      split at hg
      · cases hg
      · obtain rfl := Except.ok.inj hg
        rfl
      · obtain rfl := Except.ok.inj hg
        rfl
    have hmode := g.sameMode_modifiedChanged b.doc.modified
    refine ⟨(hb.history.endNotUndoable hL hg).modifiedChanged hL b.doc.modified, ?_⟩
    rw [hmode.inUserAction, hopen]
    exact hb.open_iff

/-- What is undone, or done again, leads to a text that was there before. -/
theorem replayAll (hb : b.Traced L known) (steps : List ReplayCommand) {n : Nat}
    (hkept : { b.history with location := n }.Kept)
    (hreaches : known → ∃ saved, b.Reaches L saved steps n) :
    (b.replayAll steps { b.history with location := n }).Traced L known ∧
      (known → b.Accepts steps ∧
        L (b.replayAll steps { b.history with location := n }).doc.text) := by
  have hdone : Traced L known
      { steps.foldl Buffer.replay b with history := { b.history with location := n } } := by
    refine ⟨⟨hkept, fun hknown _ => ?_, hb.history.suspended⟩, ?_⟩
    · obtain ⟨saved, hreaches⟩ := hreaches hknown
      exact ⟨saved, hreaches.traces⟩
    · dsimp only
      rw [actionDepth_foldl_replay b steps]
      exact hb.open_iff
  have hquiet := alike_cursorChanged
    { steps.foldl Buffer.replay b with history := { b.history with location := n } }
  refine ⟨hdone.alike hquiet, fun hknown => ?_⟩
  obtain ⟨saved, hreaches⟩ := hreaches hknown
  refine ⟨hreaches.accepts, ?_⟩
  rw [Buffer.replayAll, hquiet.text]
  exact hreaches.landmark

theorem undo (hb : b.Traced L known) (hcan : b.history.canUndo = true) :
    ∃ steps history b', b.history.undo = .ok (steps, history) ∧ b.undo = .ok b' ∧
      b'.Traced L known ∧ (known → b.Accepts steps ∧ L b'.doc.text) := by
  obtain ⟨-, -, step, -, hsteps⟩ := hb.history.kept.toOrdered.undo_eq hcan
  have hkept := hb.history.kept.call .undo
  rw [History.call_undo, if_pos hcan] at hkept
  have hlimit : b.history.limit ≠ 0 := fun hzero => by
    simp [History.canUndo, (hb.history.kept.bare hzero).location] at hcan
  have hreplay := hb.replayAll _ hkept fun hknown => by
    obtain ⟨saved, htraces⟩ := hb.history.traces hknown hlimit
    obtain ⟨n, hn, hreaches⟩ := reaches_undo hb.history.kept htraces hsteps
    rw [show b.history.location - 1 = n from congrArg History.location hn]
    exact ⟨saved, hreaches⟩
  exact ⟨_, _, _, hsteps, by rw [Buffer.undo, hsteps]; rfl, hreplay⟩

theorem redo (hb : b.Traced L known) (hcan : b.history.canRedo = true) :
    ∃ steps history b', b.history.redo = .ok (steps, history) ∧ b.redo = .ok b' ∧
      b'.Traced L known ∧ (known → b.Accepts steps ∧ L b'.doc.text) := by
  obtain ⟨-, step, -, hsteps⟩ := History.redo_eq hcan
  have hkept := hb.history.kept.call .redo
  rw [History.call_redo, if_pos hcan] at hkept
  have hlimit : b.history.limit ≠ 0 := fun hzero => by
    simp [History.canRedo, (hb.history.kept.bare hzero).steps] at hcan
  have hreplay := hb.replayAll _ hkept fun hknown => by
    obtain ⟨saved, htraces⟩ := hb.history.traces hknown hlimit
    obtain ⟨n, hn, hreaches⟩ := reaches_redo hb.history.kept htraces hsteps
    rw [show b.history.location + 1 = n from congrArg History.location hn]
    exact ⟨saved, hreaches⟩
  exact ⟨_, _, _, hsteps, by rw [Buffer.redo, hsteps]; rfl, hreplay⟩

end Traced
end Buffer
end CodeBuffer
