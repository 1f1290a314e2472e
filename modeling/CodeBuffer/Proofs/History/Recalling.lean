import CodeBuffer.Proofs.History.Attempts
import CodeBuffer.Proofs.History.Keystrokes
import CodeBuffer.Proofs.History.Snapshots
import CodeBuffer.Proofs.History.Tracing

namespace CodeBuffer

open Snapshot (settle)

/-- The place to come back to, if there was an edit. To replace a selection by the same text is an
edit, too. -/
def Document.snapshotBefore (d d' : Document) : Option Snapshot :=
  if d'.generation = d.generation then none else some d.snapshot

theorem Document.SameButTags.generation_eq {d d' : Document} (h : d.SameButTags d') :
    d'.generation = d.generation := by
  obtain ⟨tags, rfl⟩ := h
  rfl

namespace Buffer

variable {H : Type} {b b' b'' : Buffer H} {firsts : List Snapshot} {opening : Option Snapshot}
  {s : Snapshot} {a : Action} {e : Attempt} {es : List Attempt} {t : Text}

/-- The history recalls where its steps began. It has no limit, and recording is not suspended. -/
structure Recalls (firsts : List Snapshot) (opening : Option Snapshot) (b : Buffer H) : Prop where
  history : b.history.Recalls firsts opening b.doc.text
  unlimited : b.history.limit < 0
  unsuspended : b.history.suspensions = 0
  kept : b.history.Kept
  open_iff : b.history.inUserAction = true ↔ 0 < b.actionDepth
  off : b.highlightBrackets = false
  pointed : b.doc.Pointed

/-- One buffer comes from another within a user action. -/
structure Continues (b b' : Buffer H) : Prop where
  generation_le : b.doc.generation ≤ b'.doc.generation
  location : b'.history.location = b.history.location
  actionDepth : b'.actionDepth = b.actionDepth

theorem Continues.refl (b : Buffer H) : b.Continues b := ⟨Nat.le_refl _, rfl, rfl⟩

theorem Continues.trans (h : b.Continues b') (h' : b'.Continues b'') : b.Continues b'' :=
  ⟨Nat.le_trans h.generation_le h'.generation_le, h'.location.trans h.location,
    h'.actionDepth.trans h.actionDepth⟩

/-- An edit that is made and recorded. -/
structure Gathers (a : Action) (b b' : Buffer H) : Prop where
  leads : a.Leads b.doc.text b'.doc.text
  history : b'.history = b.history.push a
  generation : b'.doc.generation = b.doc.generation + 1
  pointed : b'.doc.Pointed
  highlightBrackets : b'.highlightBrackets = b.highlightBrackets
  actionDepth : b'.actionDepth = b.actionDepth

namespace Recalls

theorem recording (hb : b.Recalls firsts opening) : b.history.isRecording = true :=
  History.isRecording_iff.2 ⟨hb.unsuspended, Int.ne_of_lt hb.unlimited⟩

/-- Without an open user action no edits are gathered. -/
theorem opening_eq_none (hb : b.Recalls firsts opening)
    (hclosed : b.history.inUserAction = false) : opening = none := by
  have hgathered : b.history.gathered = [] := by
    rw [History.gathered, hb.kept.settled hclosed]
    rfl
  obtain ⟨finish, -, hopening⟩ := hb.history
  cases opening with
  | none => rfl
  | some s => exact absurd hgathered hopening.1.ne_nil

/-! Edits within a user action -/

theorem continues (hb : b.Recalls firsts opening) (hopen : 0 < b.actionDepth)
    (h : b.Gathers a b') : b.Continues b' := by
  refine ⟨?_, ?_, h.actionDepth⟩
  · rw [h.generation]
    exact Nat.le_succ _
  · rw [h.history, History.push_of_open (hb.open_iff.2 hopen)]

theorem gathers (hb : b.Recalls firsts opening) (h : b.Gathers a b') {opening' : Option Snapshot}
    (hrecalls : b'.history.Recalls firsts opening' b'.doc.text) : b'.Recalls firsts opening' := by
  have hmode := b.history.sameMode_push a
  rw [← h.history] at hmode
  refine ⟨hrecalls, ?_, hmode.suspensions.trans hb.unsuspended, ?_, ?_,
    h.highlightBrackets.trans hb.off, h.pointed⟩
  · rw [hmode.limit]
    exact hb.unlimited
  · rw [h.history]
    exact hb.kept.push hb.recording a
  · rw [hmode.inUserAction, h.actionDepth]
    exact hb.open_iff

theorem first (hb : b.Recalls firsts none) (hopen : 0 < b.actionDepth) (h : b.Gathers a b')
    (ha : a.Shows b.doc.cursor b.doc.bound) : b'.Recalls firsts (some b.doc.snapshot) := by
  have hopens : b.doc.snapshot.Opens [a] :=
    ⟨hb.pointed.cursor_le, hb.pointed.bound_le, a, [], rfl, ha⟩
  refine hb.gathers h ?_
  rw [h.history]
  exact hb.history.first (hb.open_iff.2 hopen) hopens h.leads

theorem next (hb : b.Recalls firsts (some s)) (hopen : 0 < b.actionDepth) (h : b.Gathers a b') :
    b'.Recalls firsts (some s) := by
  refine hb.gathers h ?_
  rw [h.history]
  exact hb.history.next (hb.open_iff.2 hopen) h.leads

/-- The edit once it is made and recorded. The observer and the flag come after. -/
theorem gathers_of_edit [Observer H] (hb : b.Recalls firsts opening) (hopen : 0 < b.actionDepth)
    {d : Document} {f : H → Document → H × Document}
    (hf : ∀ (h : H) (d : Document), d.SameButTags (f h d).2)
    (ha : a.Leads b.doc.text d.text) (hgeneration : d.generation = b.doc.generation + 1)
    (hd : d.Pointed) : b.Gathers a
      (notifyIfOn { b with doc := d, history := b.history.push a } f
        ).markModified.cursorChanged := by
  obtain ⟨c, hc⟩ : ∃ c, c = notifyIfOn { b with doc := d, history := b.history.push a } f :=
    ⟨_, rfl⟩
  have hfirst := sameKeys_notifyIfOn { b with doc := d, history := b.history.push a } hf
  rw [← hc] at hfirst ⊢
  have hpending : c.history.hasPending = true := by
    rw [hfirst.history, History.hasPending_eq, History.gathered_push (hb.open_iff.2 hopen)]
    simp
  have hall := hfirst.trans (c.sameKeys_markModified hpending).1
  have hcount : c.markModified.doc.generation = d.generation := by
    have hnotified : c.doc.generation = d.generation := by
      rw [hc, notifyIfOn]
      split
      · exact (hf _ _).generation_eq
      · rfl
    rw [← hnotified, markModified]
    split <;> rfl
  rw [cursorChanged_of_off _ (hall.highlightBrackets.trans hb.off)]
  exact ⟨hall.text ▸ ha, hall.history, hcount.trans hgeneration, hd.of_eq hall.marks hall.text,
    hall.highlightBrackets, hall.actionDepth⟩

variable [Observer H] [Quiet H]

theorem gathers_tryInsert (hb : b.Recalls firsts opening) (hopen : 0 < b.actionDepth) {o : Nat}
    (ht : t ≠ []) (ho : o ≤ b.doc.length) :
    b.Gathers ⟨.insertion, o, o + t.length, t,
      if b.doc.selection = (o, o) then some b.doc.selection else none⟩ (b.tryInsert o t) := by
  have hrecorded : b.history.recordInsertAt o t b.doc.selection = b.history.push
      ⟨.insertion, o, o + t.length, t,
        if b.doc.selection = (o, o) then some b.doc.selection else none⟩ := by
    rw [History.recordInsertAt, History.recordInsert, hb.recording]
    simp [ht]
  rw [(b.tryInsert_eq o t).trans (if_pos ⟨ht, ho⟩), insertedBare, hrecorded]
  refine hb.gathers_of_edit hopen (fun h d => Quiet.textInserted h d o t.length) ?_ ?_
    (hb.pointed.inserted ho ht)
  · rw [Document.text_inserted]
    exact Action.leads_insertion ho t _
  · simp [Document.inserted, ht]

theorem gathers_tryDelete (hb : b.Recalls firsts opening) (hopen : 0 < b.actionDepth)
    {start stop : Nat} (hlt : start < stop) (hstop : stop ≤ b.doc.length) :
    b.Gathers ⟨.deletion, start, stop, b.doc.text.slice start stop,
      if (b.doc.cursor = start ∨ b.doc.cursor = stop) ∧
        (b.doc.bound = start ∨ b.doc.bound = stop) then some b.doc.selection else none⟩
      (b.tryDelete start stop).2 := by
  have hrecorded : b.history.recordDeleteAt start stop (b.doc.text.slice start stop)
      b.doc.selection = b.history.push
        ⟨.deletion, start, stop, b.doc.text.slice start stop,
          if (b.doc.cursor = start ∨ b.doc.cursor = stop) ∧
            (b.doc.bound = start ∨ b.doc.bound = stop) then some b.doc.selection else none⟩ := by
    rw [History.recordDeleteAt, History.recordDelete, hb.recording]
    simp [Nat.not_le.2 hlt, Document.selection]
  rw [(b.tryDelete_eq start stop).trans (if_pos ⟨hlt, hstop⟩), deletedBare, hrecorded]
  refine hb.gathers_of_edit hopen (fun h d => Quiet.textDeleted h d start (stop - start)) ?_ ?_
    (hb.pointed.deleted hlt hstop)
  · rw [Document.text_deleted]
    exact Action.leads_deletion (Nat.le_of_lt hlt) hstop _
  · simp [Document.deleted, Nat.ne_of_lt hlt]

/-- An attempt is refused, or the edit is gathered. -/
theorem attempt_cases (hb : b.Recalls firsts opening) (hopen : 0 < b.actionDepth) (e : Attempt) :
    b.attempt e = b ∨ ∃ a, b.Gathers a (b.attempt e) := by
  cases e with
  | insert o t =>
    by_cases hdone : t ≠ [] ∧ o ≤ b.doc.length
    · exact .inr ⟨_, hb.gathers_tryInsert hopen hdone.1 hdone.2⟩
    · exact .inl ((b.tryInsert_eq o t).trans (if_neg hdone))
  | delete start stop =>
    by_cases hdone : start < stop ∧ stop ≤ b.doc.length
    · exact .inr ⟨_, hb.gathers_tryDelete hopen hdone.1 hdone.2⟩
    · exact .inl ((b.tryDelete_eq start stop).trans (if_neg hdone))

/-- An edit at the selection keeps it in mind. If it is refused, it is the only one. -/
theorem attempt_atSelection (hb : b.Recalls firsts opening) (hopen : 0 < b.actionDepth)
    (hopens : b.doc.OpensAtSelection (e :: es)) : b.attempt e = b ∧ es = [] ∨
      ∃ a, b.Gathers a (b.attempt e) ∧ a.Shows b.doc.cursor b.doc.bound := by
  cases e with
  | insert o t =>
    obtain ⟨hlast, hselection⟩ := hopens
    by_cases hdone : t ≠ [] ∧ o ≤ b.doc.length
    · refine .inr ⟨_, hb.gathers_tryInsert hopen hdone.1 hdone.2, ?_⟩
      exact Prod.mk.inj hselection
    · exact .inl ⟨(b.tryInsert_eq o t).trans (if_neg hdone), hlast⟩
  | delete start stop =>
    obtain ⟨hlt, hstop, hedges⟩ := hopens
    exact .inr ⟨_, hb.gathers_tryDelete hopen hlt hstop, if_pos hedges⟩

theorem attemptAll_some (hb : b.Recalls firsts (some s)) (hopen : 0 < b.actionDepth)
    (es : List Attempt) : (b.attemptAll es).Recalls firsts (some s) ∧
      b.Continues (b.attemptAll es) := by
  induction es generalizing b with
  | nil => exact ⟨hb, .refl b⟩
  | cons e es ih =>
    rcases hb.attempt_cases hopen e with heq | ⟨a, ha⟩
    · rw [attemptAll, List.foldl_cons, heq]
      exact ih hb hopen
    · have hcontinues := hb.continues hopen ha
      obtain ⟨hall, hrest⟩ := ih (hb.next hopen ha) (hcontinues.actionDepth.symm ▸ hopen)
      exact ⟨hall, hcontinues.trans hrest⟩

/-- The edits of a stroke. Unless edits were gathered before, they begin where the stroke does. -/
theorem attemptAll (hb : b.Recalls firsts opening) (hopen : 0 < b.actionDepth)
    (hopens : b.doc.OpensAtSelection es) :
    (b.attemptAll es).Recalls firsts
        (opening.or (b.doc.snapshotBefore (b.attemptAll es).doc)) ∧
      b.Continues (b.attemptAll es) := by
  cases opening with
  | some s => exact hb.attemptAll_some hopen es
  | none =>
    rw [Option.none_or]
    cases es with
    | nil => exact hopens.elim
    | cons e es =>
      rcases hb.attempt_atSelection hopen hopens with ⟨heq, rfl⟩ | ⟨a, ha, hshows⟩
      · have hsame : b.attemptAll [e] = b := heq
        rw [hsame, Document.snapshotBefore, if_pos rfl]
        exact ⟨hb, .refl b⟩
      · have hcontinues := hb.continues hopen ha
        obtain ⟨hall, hrest⟩ := (hb.first hopen ha hshows).attemptAll_some
          (hcontinues.actionDepth.symm ▸ hopen) es
        have hedited : (b.attemptAll (e :: es)).doc.generation ≠ b.doc.generation := by
          have hle : (b.attempt e).doc.generation ≤ (b.attemptAll (e :: es)).doc.generation :=
            hrest.generation_le
          rw [ha.generation] at hle
          omega
        rw [Document.snapshotBefore, if_neg hedited]
        exact ⟨hall, hcontinues.trans hrest⟩

/-! User actions and the selection -/

omit [Observer H] [Quiet H] in
theorem beginUserAction (hb : b.Recalls firsts opening) :
    b.beginUserAction.Recalls firsts opening ∧
      b.beginUserAction.history.location = b.history.location := by
  unfold Buffer.beginUserAction
  dsimp only
  split
  · exact ⟨⟨hb.history.of_eq rfl rfl rfl, hb.unlimited, hb.unsuspended,
      hb.kept.call .beginUserAction, ⟨fun _ => Nat.succ_pos _, fun _ => rfl⟩, hb.off, hb.pointed⟩,
      rfl⟩
  · rename_i hopen
    have hinner : b.history.inUserAction = true ↔ 0 < b.actionDepth + 1 :=
      hb.open_iff.trans ⟨fun _ => Nat.succ_pos _, fun _ => Nat.pos_of_ne_zero hopen⟩
    exact ⟨{ hb with open_iff := hinner }, rfl⟩

omit [Quiet H] in
/-- The end of the outermost user action closes what was gathered. -/
theorem finishUserAction (hb : b.Recalls firsts opening) (hopen : 0 < b.actionDepth) :
    b.finishUserAction.doc = b.doc ∧
      if b.finishUserAction.actionDepth = 0 then
        b.finishUserAction.Recalls (settle firsts opening b.history.location
          b.finishUserAction.history.location) none
      else b.finishUserAction.Recalls firsts opening := by
  unfold Buffer.finishUserAction
  by_cases hlast : b.actionDepth = 1
  · have hmode := b.history.sameMode_closePending
    rw [if_pos hlast, cursorChanged_of_off, if_pos rfl]
    · refine ⟨rfl, hb.history.finishUserAction hb.unlimited hb.kept.location_le, ?_,
        hmode.suspensions.trans hb.unsuspended, hb.kept.finishUserAction, ?_, hb.off, hb.pointed⟩
      · exact hmode.limit.symm ▸ hb.unlimited
      · exact ⟨fun h => (by cases h), fun h => absurd h (Nat.lt_irrefl 0)⟩
    · exact hb.off
  · have hinner : 0 < b.actionDepth - 1 := by omega
    rw [if_neg hlast, if_neg (Nat.ne_of_gt hinner)]
    exact ⟨rfl, { hb with open_iff := hb.open_iff.trans ⟨fun _ => hinner, fun _ => hopen⟩ }⟩

omit [Quiet H] in
theorem selectRange (hb : b.Recalls firsts opening) (i j : Nat) :
    (b.selectRange i j).Recalls firsts opening ∧
      (b.selectRange i j).doc = b.doc.selectRange i j := by
  rw [Buffer.selectRange, cursorChanged_of_off]
  · exact ⟨⟨hb.history, hb.unlimited, hb.unsuspended, hb.kept, hb.open_iff, hb.off,
      (hb.pointed.selectRange i j).1⟩, rfl⟩
  · exact hb.off

/-! Undo and redo -/

theorem pointed_replay (hd : b.doc.Pointed) (step : ReplayCommand) :
    (b.replay step).doc.Pointed := by
  have told {d : Document} {f : H → Document → H × Document}
      (hf : ∀ (h : H) (d : Document), d.SameButTags (f h d).2) (hd : d.Pointed) :
      (notifyIfOn { b with doc := d } f).doc.Pointed :=
    have hsame := sameKeys_notifyIfOn { b with doc := d } hf
    hd.of_eq hsame.marks hsame.text
  cases step with
  | insert o t =>
    rw [replay_insert]
    split
    · rename_i ho
      refine told (fun h d => Quiet.textInserted h d o t.length) ?_
      by_cases ht : t = []
      · rw [ht]
        exact hd
      · exact hd.inserted ho ht
    · exact hd
  | delete start stop =>
    rw [replay_delete]
    split
    · rename_i hin
      refine told (fun h d => Quiet.textDeleted h d start (stop - start)) ?_
      by_cases heq : start = stop
      · rw [Document.deleted, if_pos heq]
        exact hd
      · exact hd.deleted (by omega) hin.2
    · exact hd
  | placeCursor o => exact (hd.selectRange o o).1
  | selectRange i j => exact (hd.selectRange i j).1
  | setModified m => exact hd.of_eq rfl rfl

theorem pointed_foldl_replay (hd : b.doc.Pointed) (steps : List ReplayCommand) :
    (steps.foldl replay b).doc.Pointed := by
  induction steps generalizing b with
  | nil => exact hd
  | cons step steps ih => exact ih (pointed_replay hd step)

/-- A replay leads from one place of the history to another. -/
theorem replayAll (hb : b.Recalls firsts none) {steps : List ReplayCommand} {n : Nat}
    (hkept : { b.history with location := n }.Kept)
    (hthere : { b.history with location := n }.Recalls firsts none
      (steps.foldl replay b).doc.text) :
    (b.replayAll steps { b.history with location := n }).Recalls firsts none ∧
      (b.replayAll steps { b.history with location := n }).doc = (steps.foldl replay b).doc := by
  have hpointed := pointed_foldl_replay hb.pointed steps
  obtain ⟨doc, observer, heq⟩ := b.foldl_replay_eq steps
  rw [heq] at hthere hpointed
  rw [Buffer.replayAll, heq, cursorChanged_of_off]
  · exact ⟨⟨hthere, hb.unlimited, hb.unsuspended, hkept, hb.open_iff, hb.off, hpointed⟩, rfl⟩
  · exact hb.off

omit [Quiet H] in
/-- The selection that is shown once the edits are undone is the one that they began with. -/
theorem snapshot_selectionBefore {as : List Action} (hs : s.Opens as) (hd : b.doc.Pointed)
    (htext : b.doc.text = s.text) :
    ((as.head?.map Action.selectionBefore).toList.foldl replay b).doc.snapshot = s := by
  obtain ⟨a, rest, rfl, ha⟩ := hs.shows
  have hselected : b.replay a.selectionBefore =
      b.modifyDocument (·.selectRange s.cursor s.bound) := by
    unfold Action.Shows at ha
    unfold Action.selectionBefore
    split
    · rename_i hkind
      rw [hkind] at ha
      rw [ha.1, ha.2]
      rfl
    · rename_i insert bound hkind hselection
      rw [hkind, hselection] at ha
      obtain ⟨rfl, rfl⟩ := Prod.mk.inj (Option.some.inj ha)
      rfl
    · rename_i hkind hselection
      rw [hkind, hselection] at ha
      cases ha
  have hselection := (hd.selectRange s.cursor s.bound).2
  have hlength : b.doc.length = s.text.length := congrArg List.length htext
  rw [hlength, Nat.min_eq_left hs.cursor_le, Nat.min_eq_left hs.bound_le] at hselection
  obtain ⟨hcursor, hbound⟩ := Prod.mk.inj hselection
  change (b.replay a.selectionBefore).doc.snapshot = s
  rw [hselected, Document.snapshot, modifyDocument, hcursor, hbound]
  exact congrArg (Snapshot.mk · s.cursor s.bound) htext

/-- Undo comes back to where the step began. -/
theorem undo (hb : b.Recalls firsts opening) (hcan : b.history.canUndo = true) :
    ∃ b', b.undo = .ok b' ∧ b'.Recalls firsts opening ∧
      firsts[b.history.undoDepth - 1]? = some b'.doc.snapshot := by
  obtain ⟨hclosed, hlocation, step, hstep, hsteps⟩ := hb.kept.toOrdered.undo_eq hcan
  obtain rfl := hb.opening_eq_none hclosed
  obtain ⟨finish, hlaid, hnone, hhere⟩ := hb.history
  obtain ⟨s, hs, hopens, hthere, hlead⟩ := hlaid.get (n := b.history.location - 1)
    (by rw [List.getElem?_map, hstep]; rfl)
  rw [Nat.sub_add_cancel hlocation, ← hhere] at hlead
  obtain ⟨m, hflag⟩ := Replays.exists_flagCommand
    ((step.actions.reverse.map Action.undo).foldl replay b) b.history b.history.location
    (b.history.location - 1)
  have hedits := (Replays.undoAll hlead).append hflag
  have htext := hedits.text.trans (Replays.undoAll hlead).text
  have hback := snapshot_selectionBefore hopens (pointed_foldl_replay hb.pointed _) htext
  rw [← List.foldl_append] at hback
  have hkept := hb.kept.call .undo
  rw [History.call_undo, if_pos hcan] at hkept
  obtain ⟨hrecalls, hdoc⟩ := hb.replayAll hkept
    ⟨finish, hlaid, hnone, (congrArg Snapshot.text hback).trans hthere.symm⟩
  refine ⟨_, by rw [Buffer.undo, hsteps]; rfl, hrecalls, ?_⟩
  rw [hdoc, hback]
  exact hs

theorem redo (hb : b.Recalls firsts opening) (hcan : b.history.canRedo = true) :
    ∃ b', b.redo = .ok b' ∧ b'.Recalls firsts opening := by
  obtain ⟨hclosed, step, hstep, hsteps⟩ := History.redo_eq hcan
  obtain rfl := hb.opening_eq_none hclosed
  obtain ⟨finish, hlaid, hnone, hhere⟩ := hb.history
  obtain ⟨s, -, -, hthere, hlead⟩ := hlaid.get (n := b.history.location)
    (by rw [List.getElem?_map, hstep]; rfl)
  rw [← hthere, ← hhere] at hlead
  obtain ⟨m, hflag⟩ := Replays.exists_flagCommand
    ((step.actions.map Action.redo).foldl replay b) b.history b.history.location
    (b.history.location + 1)
  have hedits := (Replays.redoAll hlead).append hflag
  have hall := hedits.append (.head _ (Replays.selectionAfter _) step.actions)
  have htext := hall.text.trans (hedits.text.trans (Replays.redoAll hlead).text)
  have hkept := hb.kept.call .redo
  rw [History.call_redo, if_pos hcan] at hkept
  have hredo := (hb.replayAll hkept ⟨finish, hlaid, hnone, htext⟩).1
  exact ⟨_, by rw [Buffer.redo, hsteps]; rfl, hredo⟩

end Recalls
end Buffer

/-- What somebody at the keyboard may do: strokes, selecting, user actions, undo and redo. -/
def Command.IsInteractive {H : Type} : Command H → Prop
  | .placeCursor _ | .selectRange _ _ | .beginUserAction | .endUserAction | .undo | .redo => True
  | c => c.IsStroke

/-- A buffer in use. Each of its steps has a snapshot in `firsts`, from just before the first
command of the step that edited the text. `opening` is that snapshot for the edits that are no step
yet. -/
structure Recall (H : Type) where
  buffer : Buffer H
  firsts : List Snapshot
  opening : Option Snapshot

namespace Recall

variable {H : Type} [Observer H] {r : Recall H} {b : Buffer H}

def start (id : Nat) (t : Text) (h : H) : Recall H := ⟨.new id t h, [], none⟩

/-- The buffer is another one after a command. Without an open user action its edits are part of a
step. -/
def advance (r : Recall H) (b : Buffer H) : Recall H :=
  let opening := r.opening.or (r.buffer.doc.snapshotBefore b.doc)
  if b.actionDepth = 0 then
    ⟨b, settle r.firsts opening r.buffer.history.undoDepth b.history.undoDepth, none⟩
  else ⟨b, r.firsts, opening⟩

/-- Undo and redo leave the steps alone. -/
def perform (r : Recall H) (c : Command H) : Recall H :=
  match c with
  | .undo | .redo => { r with buffer := r.buffer.perform c }
  | _ => r.advance (r.buffer.perform c)

def run (r : Recall H) (cs : List (Command H)) : Recall H := cs.foldl perform r

def Sound (r : Recall H) : Prop := r.buffer.Recalls r.firsts r.opening

omit [Observer H] in
/-- Without an edit nothing is there to recall. -/
theorem Sound.stay (hb : b.Recalls r.firsts r.opening)
    (hsame : b.doc.generation = r.buffer.doc.generation) : (r.advance b).Sound := by
  unfold advance
  rw [Document.snapshotBefore, if_pos hsame, Option.or_none]
  dsimp only
  split
  · rename_i hzero
    have hclosed : b.history.inUserAction = false := by
      rw [← Bool.not_eq_true, hb.open_iff, hzero]
      exact Nat.lt_irrefl 0
    have hnone := hb.opening_eq_none hclosed
    rw [hnone] at hb ⊢
    exact hb
  · exact hb

theorem Sound.finish (hopen : 0 < b.actionDepth)
    (hb : b.Recalls r.firsts (r.opening.or (r.buffer.doc.snapshotBefore b.doc)))
    (hlocation : b.history.location = r.buffer.history.location) :
    (r.advance b.finishUserAction).Sound := by
  obtain ⟨hdoc, hdone⟩ := hb.finishUserAction hopen
  unfold advance
  rw [hdoc]
  dsimp only
  split
  · rename_i hclosed
    rw [if_pos hclosed, hlocation] at hdone
    exact hdone
  · rename_i hinner
    rw [if_neg hinner] at hdone
    exact hdone

variable [Quiet H]

theorem sound_start (id : Nat) (t : Text) (h : H) : (start id t h).Sound := by
  have hdoc := Quiet.attach h (Document.new id t)
  have htext : (Buffer.new id t h).doc.text = t := hdoc.text_eq
  have hpointed : (Document.new id t).Pointed :=
    ⟨⟨_, rfl, Nat.zero_le _⟩, ⟨_, rfl, Nat.zero_le _⟩⟩
  refine ⟨⟨t, trivial, rfl, htext⟩, (by decide : (-1 : Int) < 0), rfl, History.kept_empty, ?_, rfl,
    hpointed.of_eq hdoc.marks_eq hdoc.text_eq⟩
  exact ⟨fun h => (by cases h), fun h => absurd h (Nat.lt_irrefl 0)⟩

theorem Sound.stroke (hr : r.Sound) {c : Command H} (hc : c.IsStroke) :
    (r.advance (r.buffer.perform c)).Sound := by
  rcases r.buffer.perform_stroke hc with heq | ⟨es, heq, hopens⟩
  · rw [heq]
    exact .stay hr rfl
  · rw [heq]
    obtain ⟨hbegun, hlocation⟩ := hr.beginUserAction
    have hopen : 0 < r.buffer.beginUserAction.actionDepth := Nat.succ_pos _
    obtain ⟨hall, hcontinues⟩ := hbegun.attemptAll hopen (hopens hr.pointed)
    exact .finish (hcontinues.actionDepth.symm ▸ hopen) hall (hcontinues.location.trans hlocation)

theorem Sound.perform (hr : r.Sound) {c : Command H} (hc : c.IsInteractive) :
    (r.perform c).Sound := by
  cases c with
  | type t => exact hr.stroke (c := .type t) hc
  | backspace => exact hr.stroke (c := .backspace) hc
  | deleteKey => exact hr.stroke (c := .deleteKey) hc
  | deleteSelection => exact hr.stroke (c := .deleteSelection) hc
  | placeCursor o =>
    obtain ⟨hb, hdoc⟩ := Buffer.Recalls.selectRange hr o o
    have hsame := congrArg Document.generation hdoc
    exact .stay hb hsame
  | selectRange i j =>
    obtain ⟨hb, hdoc⟩ := Buffer.Recalls.selectRange hr i j
    have hsame := congrArg Document.generation hdoc
    exact .stay hb hsame
  | beginUserAction => exact .stay (Buffer.Recalls.beginUserAction hr).1 rfl
  | endUserAction =>
    change (r.advance (r.buffer.perform .endUserAction)).Sound
    rw [Buffer.perform_endUserAction]
    split
    · exact .stay hr rfl
    · rename_i hopen
      refine .finish (Nat.pos_of_ne_zero hopen) ?_ rfl
      rw [Document.snapshotBefore, if_pos rfl, Option.or_none]
      exact hr
  | undo =>
    change (r.buffer.perform .undo).Recalls r.firsts r.opening
    by_cases hcan : r.buffer.history.canUndo = true
    · obtain ⟨b, hundo, hb, -⟩ := Buffer.Recalls.undo hr hcan
      rw [Buffer.perform, hundo]
      exact hb
    · rw [Buffer.perform, Buffer.undo, History.undo, if_neg hcan]
      exact hr
  | redo =>
    change (r.buffer.perform .redo).Recalls r.firsts r.opening
    by_cases hcan : r.buffer.history.canRedo = true
    · obtain ⟨b, hredo, hb⟩ := Buffer.Recalls.redo hr hcan
      rw [Buffer.perform, hredo]
      exact hb
    · rw [Buffer.perform, Buffer.redo, History.redo, if_neg hcan]
      exact hr
  | _ => exact hc.elim

theorem Sound.run (hr : r.Sound) {cs : List (Command H)} (hcs : ∀ c ∈ cs, c.IsInteractive) :
    (r.run cs).Sound := by
  induction cs generalizing r with
  | nil => exact hr
  | cons c cs ih =>
    rw [List.forall_mem_cons] at hcs
    exact ih (hr.perform hcs.1) hcs.2

/-- Undo gives back the selection along with the text. Both are what they were before the first edit
of the step, of one command or of several. -/
theorem undo_restores_snapshot (id : Nat) (t : Text) (h : H) (cs : List (Command H))
    (hcs : ∀ c ∈ cs, c.IsInteractive) :
    let r := (start id t h).run cs
    r.firsts.length = r.buffer.history.steps.length ∧
      (r.buffer.history.canUndo = true → ∃ b, r.buffer.undo = .ok b ∧
        r.firsts[r.buffer.history.undoDepth - 1]? = some b.doc.snapshot) := by
  have hr := (sound_start id t h).run hcs
  generalize (start id t h).run cs = r at hr
  obtain ⟨finish, hlaid, -⟩ := hr.history
  refine ⟨hlaid.length_eq.trans (List.length_map _), fun hcan => ?_⟩
  obtain ⟨b, hundo, -, hback⟩ := Buffer.Recalls.undo hr hcan
  exact ⟨b, hundo, hback⟩

/-- A letter replaces what was selected from right to left, and two more join in a step behind it. A
user action types at the start and deletes a selection. Of the three steps two are undone. -/
def retyped : List (Command PlainText) :=
  [.selectRange 3 1, .type ['a'], .type ['b'], .undo, .redo, .type ['c'], .beginUserAction,
    .placeCursor 0, .type ['d'], .selectRange 2 3, .backspace, .endUserAction, .undo, .undo]

theorem undo_restores_snapshot_retyped :
    ((start 0 ['x', 'y', 'z'] PlainText.mk).run retyped).buffer.doc.snapshot =
        ⟨['x', 'a'], 2, 2⟩ ∧
      ((start 0 ['x', 'y', 'z'] PlainText.mk).run retyped).firsts =
        [⟨['x', 'y', 'z'], 3, 1⟩, ⟨['x', 'a'], 2, 2⟩, ⟨['x', 'a', 'b', 'c'], 0, 0⟩] ∧
      ∃ b, ((start 0 ['x', 'y', 'z'] PlainText.mk).run retyped).buffer.undo = .ok b ∧
        b.doc.snapshot = ⟨['x', 'y', 'z'], 3, 1⟩ := by
  have hfirsts : ((start 0 ['x', 'y', 'z'] PlainText.mk).run retyped).firsts =
      [⟨['x', 'y', 'z'], 3, 1⟩, ⟨['x', 'a'], 2, 2⟩, ⟨['x', 'a', 'b', 'c'], 0, 0⟩] := by
    decide +kernel
  have hdepth : ((start 0 ['x', 'y', 'z'] PlainText.mk).run retyped).buffer.history.undoDepth =
      1 := by
    decide +kernel
  obtain ⟨-, hundo⟩ := undo_restores_snapshot 0 ['x', 'y', 'z'] PlainText.mk retyped
    (by simp [retyped, Command.IsInteractive, Command.IsStroke])
  obtain ⟨b, hb, hback⟩ := hundo (by decide +kernel)
  rw [hfirsts, hdepth] at hback
  exact ⟨by decide +kernel, hfirsts, b, hb, (Option.some.inj hback).symm⟩

end Recall
end CodeBuffer
