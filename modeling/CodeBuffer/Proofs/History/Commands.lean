import CodeBuffer.Proofs.History.Coherent
import CodeBuffer.Proofs.History.Replaying

namespace CodeBuffer

/-- The action that stands for an insertion in the history. -/
def Document.insertion (d : Document) (o : Nat) (t : Text) : Action :=
  ⟨.insertion, o, o + t.length, t, if d.selection = (o, o) then some d.selection else none⟩

/-- The action that stands for a deletion in the history. -/
def Document.deletion (d : Document) (start stop : Nat) : Action :=
  let onEdge (o : Nat) : Bool := o == start || o == stop
  ⟨.deletion, start, stop, d.text.slice start stop,
    if onEdge d.selection.1 && onEdge d.selection.2 then some d.selection else none⟩

namespace Buffer

section

variable {H : Type} [Observer H] [Quiet H]

/-- A buffer whose history is in step with its text. -/
def Coherent (L : Text → Prop) (origin : Option Text) (saved : Text) (b : Buffer H) : Prop :=
  History.Coherent L origin saved b.doc.text b.doc.modified b.history b.actionDepth

/-- The text is a landmark if no user action is open. -/
def Landed (L : Text → Prop) (b : Buffer H) : Prop := b.actionDepth = 0 → L b.doc.text

variable {L : Text → Prop} {origin : Option Text} {saved : Text} {b b' : Buffer H}

omit [Observer H] [Quiet H] in
theorem Coherent.alike (hc : b.Coherent L origin saved) (h : b.Alike b') :
    b'.Coherent L origin saved := by
  rw [Coherent, h.text, h.modified, h.history, h.actionDepth]
  exact hc

omit [Observer H] [Quiet H] in
theorem Landed.of_alike (hL : b'.Landed L) (h : b.Alike b') : b.Landed L := by
  rw [Landed, h.text, h.actionDepth] at hL
  exact hL

/-- One buffer comes from another by an edit, of which the history takes note. -/
structure Edited (a : Action) (b b' : Buffer H) : Prop where
  leads : a.Leads b.doc.text b'.doc.text
  history : b'.history = b.history.edited a b.doc.modified
  modified : b'.doc.modified = true
  actionDepth : b'.actionDepth = b.actionDepth

/-- An edit that is recorded, made and told of. -/
theorem edited_cursorChanged {a : Action} {d : Document} (ha : a.Leads b.doc.text d.text)
    (hm : d.modified = b.doc.modified)
    (hb : Alike { b with history := b.history.record a, doc := d } b') :
    b.Edited a b'.markModified.cursorChanged := by
  have hmodified : b'.doc.modified = b.doc.modified := hb.modified.trans hm
  have hmarked : b'.markModified.doc.text = d.text ∧ b'.markModified.doc.modified = true ∧
      b'.markModified.history = b.history.edited a b.doc.modified ∧
        b'.markModified.actionDepth = b.actionDepth := by
    rw [History.edited, ← hmodified]
    unfold markModified
    split
    · rename_i hset
      exact ⟨hb.text, hset, hb.history, hb.actionDepth⟩
    · exact ⟨hb.text, rfl, congrArg (·.modifiedChanged true) hb.history, hb.actionDepth⟩
  obtain ⟨htext, hset, hhistory, hdepth⟩ := hmarked
  have hquiet := b'.markModified.alike_cursorChanged
  refine ⟨?_, hquiet.history.trans hhistory, hquiet.modified.trans hset,
    hquiet.actionDepth.trans hdepth⟩
  rw [hquiet.text, htext]
  exact ha

theorem edited_tryInsert {o : Nat} {t : Text} (hdone : t ≠ [] ∧ o ≤ b.doc.length) :
    b.Edited (b.doc.insertion o t) (b.tryInsert o t) := by
  have hleads := Action.leads_insertion hdone.2 t
    (if b.doc.selection = (o, o) then some b.doc.selection else none)
  rw [← b.doc.text_inserted] at hleads
  have hrecord : b.history.recordInsertAt o t b.doc.selection =
      b.history.record (b.doc.insertion o t) := by
    rw [History.recordInsertAt, History.recordInsert, History.record]
    cases b.history.isRecording <;> simp [hdone.1, Document.insertion]
  rw [tryInsert_eq, if_pos hdone]
  apply edited_cursorChanged hleads (b.doc.modified_inserted o t)
  rw [insertedBare, hrecord]
  exact alike_notifyIfOn _ fun h d => Quiet.textInserted h d o t.length

theorem edited_tryDelete {start stop : Nat} (hdone : start < stop ∧ stop ≤ b.doc.length) :
    b.Edited (b.doc.deletion start stop) (b.tryDelete start stop).2 := by
  have hleads := Action.leads_deletion (Nat.le_of_lt hdone.1) hdone.2
    (b.doc.deletion start stop).selection
  rw [← b.doc.text_deleted] at hleads
  have hrecord : b.history.recordDeleteAt start stop (b.doc.text.slice start stop)
      b.doc.selection = b.history.record (b.doc.deletion start stop) := by
    rw [History.recordDeleteAt, History.recordDelete, History.record]
    have hlt : ¬stop ≤ start := by omega
    cases b.history.isRecording <;> simp [hlt, Document.deletion]
  rw [tryDelete_eq, if_pos hdone]
  apply edited_cursorChanged hleads (b.doc.modified_deleted start stop)
  rw [deletedBare, hrecord]
  exact alike_notifyIfOn _ fun h d => Quiet.textDeleted h d start (stop - start)

theorem tryInsert_cases (b : Buffer H) (o : Nat) (t : Text) :
    b.tryInsert o t = b ∨ ∃ a, b.Edited a (b.tryInsert o t) := by
  by_cases hdone : t ≠ [] ∧ o ≤ b.doc.length
  · exact .inr ⟨_, edited_tryInsert hdone⟩
  · exact .inl ((b.tryInsert_eq o t).trans (if_neg hdone))

theorem tryDelete_cases (b : Buffer H) (start stop : Nat) :
    (b.tryDelete start stop).2 = b ∨ ∃ a, b.Edited a (b.tryDelete start stop).2 := by
  by_cases hdone : start < stop ∧ stop ≤ b.doc.length
  · exact .inr ⟨_, edited_tryDelete hdone⟩
  · exact .inl ((b.tryDelete_eq start stop).trans (if_neg hdone))

omit [Observer H] [Quiet H]

theorem Coherent.edited (hc : b.Coherent L origin saved) {a : Action} (h : b.Edited a b')
    (hL : b'.Landed L)
    (hroom : origin ≠ none → b.actionDepth = 0 → ¬(b.history.gather a).Evicts) :
    b'.Coherent L origin saved := by
  rw [Landed, h.actionDepth] at hL
  rw [Coherent, h.modified, h.history, h.actionDepth]
  exact History.Coherent.edited hc h.leads hL hroom

/-- An edit within a user action. -/
theorem Coherent.edited_open (hc : b.Coherent L origin saved) (hopen : 0 < b.actionDepth)
    (h : b' = b ∨ ∃ a, b.Edited a b') :
    b'.Coherent L origin saved ∧ b'.actionDepth = b.actionDepth := by
  rcases h with rfl | ⟨a, h⟩
  · exact ⟨hc, rfl⟩
  · refine ⟨hc.edited h ?_ ?_, h.actionDepth⟩
    · intro hzero
      rw [h.actionDepth] at hzero
      omega
    · intro _ hzero
      omega

theorem Coherent.beginUserAction (hc : b.Coherent L origin saved) :
    b.beginUserAction.Coherent L origin saved := History.Coherent.beginUserAction hc

/-- An edit and the one that makes it within a user action of its own find the same room. -/
theorem Edited.evicts_iff {a : Action} {c : Buffer H} (h : b.beginUserAction.Edited a c)
    (hclosed : b.actionDepth = 0) (hrec : b.history.isRecording = true) :
    c.history.Evicts ↔ (b.history.gather a).Evicts := by
  have hbegun : b.beginUserAction.history = b.history.beginUserAction := if_pos hclosed
  rw [h.history, hbegun, b.history.beginUserAction.edited_of_open hrec rfl]
  exact (b.history.gather a).evicts_inUserAction true

/-! Setting the flag, limits and suspensions -/

theorem Coherent.flag (hc : b.Coherent L origin saved) :
    (b.setModified true).Coherent L origin saved := by
  unfold Buffer.setModified
  split
  · exact hc
  · rename_i hm
    rw [Bool.not_eq_true] at hm
    rw [Coherent, hm] at hc
    exact History.Coherent.setModified hc

theorem Coherent.save (hc : b.Coherent L origin saved) (hm : b.doc.modified = true)
    (hL : L b.doc.text) (hroom : origin ≠ none → ¬b.history.Evicts) :
    (b.setModified false).Coherent L origin b.doc.text := by
  unfold Buffer.setModified
  rw [if_neg (by rw [hm]; exact Bool.noConfusion)]
  exact History.Coherent.save hc (fun _ => hL) hroom

theorem setModified_of_saved (hm : b.doc.modified = false) : b.setModified false = b := by
  unfold Buffer.setModified
  rw [if_pos hm]

theorem Coherent.setUndoLimit (hc : b.Coherent L origin saved) {limit : Int}
    (hkept : origin ≠ none →
      limit ≠ 0 ∧ (0 ≤ limit → (b.history.location : Int) ≤ limit))
    (hL : b.history.isRecording = false → (b.setUndoLimit limit).history.isRecording = true →
      L b.doc.text) : (b.setUndoLimit limit).Coherent L origin saved := by
  refine History.Coherent.relimited hc hkept fun hoff hon => hL hoff ?_
  have hhistory : (b.setUndoLimit limit).history = b.history.relimited limit b.doc.modified := rfl
  rw [hhistory, History.relimited, hoff, hon]
  exact ((b.history.setLimit limit).sameMode_modifiedChanged _).isRecording_eq.trans hon

theorem Coherent.beginNotUndoable (hc : b.Coherent L none saved) :
    b.beginNotUndoable.Coherent L none saved := History.Coherent.beginNotUndoable hc

theorem Coherent.endNotUndoable (hc : b.Coherent L origin saved)
    (hended : b.endNotUndoable = .ok b')
    (hL : b.history.isRecording = false → b'.history.isRecording = true → L b'.doc.text) :
    b'.Coherent L origin saved := by
  unfold Buffer.endNotUndoable at hended
  cases hg : b.history.endNotUndoable with
  | error fault =>
    rw [hg] at hended
    cases hended
  | ok g =>
    rw [hg] at hended
    obtain rfl := Except.ok.inj hended
    have hoff : b.history.isRecording = false := by
      cases hs : b.history.suspensions with
      | zero =>
        rw [History.endNotUndoable, hs] at hg
        cases hg
      | succ n => simp [History.isRecording, hs]
    refine History.Coherent.endNotUndoable hc hg fun hon => hL hoff ?_
    exact (g.sameMode_modifiedChanged _).isRecording_eq.trans hon

end

/-! User actions that are made of edits -/

/-- The buffer within one user action more. -/
def deepened {H : Type} (b : Buffer H) : Buffer H := { b with actionDepth := b.actionDepth + 1 }

section

variable {H : Type} {b : Buffer H}

theorem beginUserAction_of_open (hopen : 0 < b.actionDepth) : b.beginUserAction = b.deepened := by
  rw [Buffer.beginUserAction, if_neg (by omega), deepened]

theorem actionDepth_markModified (b : Buffer H) : b.markModified.actionDepth = b.actionDepth := by
  unfold markModified
  split <;> rfl

theorem actionDepth_notifyIfOn (b : Buffer H) (f : H → Document → H × Document) :
    (b.notifyIfOn f).actionDepth = b.actionDepth := by
  unfold notifyIfOn
  split <;> rfl

theorem markModified_deepened (b : Buffer H) :
    b.deepened.markModified = b.markModified.deepened := by
  rw [markModified, markModified, apply_ite deepened]
  rfl

theorem notifyIfOn_deepened (b : Buffer H) (f : H → Document → H × Document) :
    b.deepened.notifyIfOn f = (b.notifyIfOn f).deepened := by
  rw [notifyIfOn, notifyIfOn, apply_ite deepened]
  rfl

end

section

variable {H : Type} [Observer H] {b : Buffer H}

theorem finishUserAction_deepened (hopen : 0 < b.actionDepth) :
    b.deepened.finishUserAction = b :=
  if_neg (show b.actionDepth + 1 ≠ 1 by omega)

/-- Within a user action, the end of an edit does not ask how many of them are open. -/
theorem settled_deepened (hopen : 0 < b.actionDepth) :
    b.deepened.markModified.cursorChanged = b.markModified.cursorChanged.deepened := by
  have hdepth : 0 < b.markModified.actionDepth := by rwa [actionDepth_markModified]
  rw [markModified_deepened, cursorChanged_of_open hdepth, cursorChanged_of_open (Nat.succ_pos _)]

theorem tryInsert_deepened (hopen : 0 < b.actionDepth) (o : Nat) (t : Text) :
    b.deepened.tryInsert o t = (b.tryInsert o t).deepened := by
  have hbare : b.deepened.insertedBare o t = (b.insertedBare o t).deepened := by
    rw [insertedBare, insertedBare, ← notifyIfOn_deepened]
    rfl
  have hdepth : (b.insertedBare o t).actionDepth = b.actionDepth := actionDepth_notifyIfOn _ _
  rw [tryInsert_eq, tryInsert_eq, apply_ite deepened, hbare, settled_deepened (hdepth ▸ hopen)]
  rfl

theorem tryDelete_deepened (hopen : 0 < b.actionDepth) (start stop : Nat) :
    (b.deepened.tryDelete start stop).2 = (b.tryDelete start stop).2.deepened := by
  have hbare : b.deepened.deletedBare start stop = (b.deletedBare start stop).deepened := by
    rw [deletedBare, deletedBare, ← notifyIfOn_deepened]
    rfl
  have hdepth : (b.deletedBare start stop).actionDepth = b.actionDepth := actionDepth_notifyIfOn _ _
  rw [tryDelete_eq, tryDelete_eq, apply_ite deepened, hbare, settled_deepened (hdepth ▸ hopen)]
  rfl

theorem actionDepth_tryInsert (hopen : 0 < b.actionDepth) (o : Nat) (t : Text) :
    (b.tryInsert o t).actionDepth = b.actionDepth := by
  have hdepth : (b.insertedBare o t).markModified.actionDepth = b.actionDepth :=
    (actionDepth_markModified _).trans (actionDepth_notifyIfOn _ _)
  rw [tryInsert_eq]
  split
  · rwa [cursorChanged_of_open (hdepth ▸ hopen)]
  · rfl

theorem actionDepth_tryDelete (hopen : 0 < b.actionDepth) (start stop : Nat) :
    (b.tryDelete start stop).2.actionDepth = b.actionDepth := by
  have hdepth : (b.deletedBare start stop).markModified.actionDepth = b.actionDepth :=
    (actionDepth_markModified _).trans (actionDepth_notifyIfOn _ _)
  rw [tryDelete_eq]
  split
  · rwa [cursorChanged_of_open (hdepth ▸ hopen)]
  · rfl

theorem withoutSelection_deepened (hopen : 0 < b.actionDepth) :
    b.deepened.withoutSelection = b.withoutSelection.deepened := by
  unfold withoutSelection
  rw [show b.deepened.doc = b.doc from rfl]
  split
  · exact tryDelete_deepened hopen _ _
  · rfl

theorem actionDepth_withoutSelection (hopen : 0 < b.actionDepth) :
    b.withoutSelection.actionDepth = b.actionDepth := by
  unfold withoutSelection
  split
  · exact actionDepth_tryDelete hopen _ _
  · rfl

/-- Within a user action, to type is to delete what is selected and to insert. -/
theorem type_of_open (hopen : 0 < b.actionDepth) (t : Text) :
    b.type t = b.withoutSelection.tryInsert b.withoutSelection.doc.cursor t := by
  have hdepth := actionDepth_withoutSelection hopen
  have hbare : 0 < b.withoutSelection.actionDepth := hdepth ▸ hopen
  rw [type_eq, beginUserAction_of_open hopen, withoutSelection_deepened hopen,
    tryInsert_deepened hbare]
  exact finishUserAction_deepened (actionDepth_tryInsert hbare _ t ▸ hbare)

/-- Within a user action, to delete as one is to delete. -/
theorem deleteAsAction_of_open (hopen : 0 < b.actionDepth) (start stop : Nat) :
    (b.deleteAsAction start stop).2 = (b.tryDelete start stop).2 := by
  change (b.beginUserAction.tryDelete start stop).2.finishUserAction = _
  rw [beginUserAction_of_open hopen, tryDelete_deepened hopen]
  exact finishUserAction_deepened (actionDepth_tryDelete hopen start stop ▸ hopen)

end

/-! Commands that edit -/

section

variable {H : Type} [Observer H] [Quiet H] {L : Text → Prop} {origin : Option Text} {saved : Text}
  {b b' : Buffer H}

theorem Coherent.insert (hc : b.Coherent L origin saved) (o : Nat) (t : Text)
    (hL : (b.tryInsert o t).Landed L)
    (hroom : origin ≠ none → b.actionDepth = 0 →
      ¬(b.beginUserAction.tryInsert o t).history.Evicts) :
    (b.tryInsert o t).Coherent L origin saved := by
  by_cases hdone : t ≠ [] ∧ o ≤ b.doc.length
  · have hbegun : b.beginUserAction.Edited (b.doc.insertion o t)
        (b.beginUserAction.tryInsert o t) := edited_tryInsert (b := b.beginUserAction) hdone
    refine hc.edited (edited_tryInsert hdone) hL fun horigin hclosed => ?_
    rw [← hbegun.evicts_iff hclosed (hc.whole horigin)]
    exact hroom horigin hclosed
  · rw [tryInsert_eq, if_neg hdone]
    exact hc

theorem Coherent.delete (hc : b.Coherent L origin saved) (start stop : Nat)
    (hL : (b.tryDelete start stop).2.Landed L)
    (hroom : origin ≠ none → b.actionDepth = 0 →
      ¬(b.beginUserAction.tryDelete start stop).2.history.Evicts) :
    (b.tryDelete start stop).2.Coherent L origin saved := by
  by_cases hdone : start < stop ∧ stop ≤ b.doc.length
  · have hbegun : b.beginUserAction.Edited (b.doc.deletion start stop)
        (b.beginUserAction.tryDelete start stop).2 :=
      edited_tryDelete (b := b.beginUserAction) hdone
    refine hc.edited (edited_tryDelete hdone) hL fun horigin hclosed => ?_
    rw [← hbegun.evicts_iff hclosed (hc.whole horigin)]
    exact hroom horigin hclosed
  · rw [tryDelete_eq, if_neg hdone]
    exact hc

theorem Coherent.finishUserAction (hc : b.Coherent L origin saved) (hopen : 0 < b.actionDepth)
    (hL : b.finishUserAction.Landed L)
    (hroom : origin ≠ none → b.actionDepth = 1 → ¬b.history.Evicts) :
    b.finishUserAction.Coherent L origin saved := by
  unfold Buffer.finishUserAction at hL ⊢
  split at hL
  · rename_i hlast
    rw [if_pos hlast]
    have hland := hL.of_alike (alike_cursorChanged _) rfl
    refine Coherent.alike ?_ (alike_cursorChanged _)
    exact History.Coherent.finishUserAction hc hland fun horigin => hroom horigin hlast
  · rename_i hinner
    rw [if_neg hinner]
    exact History.Coherent.leaveUserAction hc (by omega)

/-- The end of a user action that was begun for some edits. -/
theorem Coherent.finish_begun (hc : b'.Coherent L origin saved)
    (hdepth : b'.actionDepth = b.beginUserAction.actionDepth) (hL : b'.finishUserAction.Landed L)
    (hroom : origin ≠ none → b.actionDepth = 0 → ¬b'.history.Evicts) :
    b'.finishUserAction.Coherent L origin saved := by
  have hbegun : b'.actionDepth = b.actionDepth + 1 := hdepth
  exact hc.finishUserAction (by omega) hL fun horigin hlast => hroom horigin (by omega)

theorem Coherent.withoutSelection (hc : b.Coherent L origin saved) (hopen : 0 < b.actionDepth) :
    b.withoutSelection.Coherent L origin saved := by
  unfold Buffer.withoutSelection
  split
  · exact (hc.edited_open hopen (tryDelete_cases b _ _)).1
  · exact hc

theorem Coherent.type (hc : b.Coherent L origin saved) (t : Text) (hL : (b.type t).Landed L)
    (hroom : origin ≠ none → b.actionDepth = 0 → ¬(b.beginUserAction.type t).history.Evicts) :
    (b.type t).Coherent L origin saved := by
  have hopen : 0 < b.beginUserAction.actionDepth := Nat.succ_pos _
  have hdepth := actionDepth_withoutSelection hopen
  obtain ⟨htyped, hdepth'⟩ := (hc.beginUserAction.withoutSelection hopen).edited_open
    (hdepth ▸ hopen) (tryInsert_cases _ b.beginUserAction.withoutSelection.doc.cursor t)
  rw [type_of_open hopen] at hroom
  exact htyped.finish_begun (hdepth'.trans hdepth) hL hroom

theorem Coherent.deleteAsAction (hc : b.Coherent L origin saved) (start stop : Nat)
    (hL : (b.deleteAsAction start stop).2.Landed L)
    (hroom : origin ≠ none → b.actionDepth = 0 →
      ¬(b.beginUserAction.deleteAsAction start stop).2.history.Evicts) :
    (b.deleteAsAction start stop).2.Coherent L origin saved := by
  have hopen : 0 < b.beginUserAction.actionDepth := Nat.succ_pos _
  obtain ⟨hdeleted, hdepth⟩ :=
    hc.beginUserAction.edited_open hopen (tryDelete_cases _ start stop)
  rw [deleteAsAction_of_open hopen] at hroom
  exact hdeleted.finish_begun hdepth hL hroom

theorem Coherent.deleteSelection (hc : b.Coherent L origin saved)
    (hL : b.deleteSelection.2.Landed L)
    (hroom : origin ≠ none → b.actionDepth = 0 →
      ¬b.beginUserAction.deleteSelection.2.history.Evicts) :
    b.deleteSelection.2.Coherent L origin saved := by
  have hdoc : b.beginUserAction.doc = b.doc := rfl
  unfold Buffer.deleteSelection at hL hroom ⊢
  rw [hdoc] at hroom
  cases hsel : b.doc.selectionBounds? with
  | none => exact hc
  | some bounds =>
    rw [hsel] at hL hroom
    exact hc.deleteAsAction bounds.1 bounds.2 hL hroom

theorem Coherent.backspace (hc : b.Coherent L origin saved) (hL : b.backspace.2.Landed L)
    (hroom : origin ≠ none → b.actionDepth = 0 → ¬b.beginUserAction.backspace.2.history.Evicts) :
    b.backspace.2.Coherent L origin saved := by
  have hdoc : b.beginUserAction.doc = b.doc := rfl
  unfold Buffer.backspace at hL hroom ⊢
  rw [hdoc] at hroom
  split at hL
  · rename_i hsel
    rw [if_pos hsel] at hroom ⊢
    exact hc.deleteSelection hL hroom
  · rename_i hsel
    rw [if_neg hsel] at hroom ⊢
    split at hL
    · rename_i hzero
      rw [if_pos hzero]
      exact hc
    · rename_i hzero
      rw [if_neg hzero] at hroom ⊢
      exact hc.deleteAsAction _ _ hL hroom

theorem Coherent.deleteKey (hc : b.Coherent L origin saved) (hL : b.deleteKey.2.Landed L)
    (hroom : origin ≠ none → b.actionDepth = 0 → ¬b.beginUserAction.deleteKey.2.history.Evicts) :
    b.deleteKey.2.Coherent L origin saved := by
  have hdoc : b.beginUserAction.doc = b.doc := rfl
  unfold Buffer.deleteKey at hL hroom ⊢
  rw [hdoc] at hroom
  split at hL
  · rename_i hsel
    rw [if_pos hsel] at hroom ⊢
    exact hc.deleteSelection hL hroom
  · rename_i hsel
    rw [if_neg hsel] at hroom ⊢
    split at hL
    · rename_i hend
      rw [if_pos hend]
      exact hc
    · rename_i hend
      rw [if_neg hend] at hroom ⊢
      exact hc.deleteAsAction _ _ hL hroom

end

end Buffer
end CodeBuffer
