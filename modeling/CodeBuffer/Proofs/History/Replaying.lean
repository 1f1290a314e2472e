import CodeBuffer.Proofs.History.Leading

namespace CodeBuffer

namespace Action

variable {a : Action} {short long : Text}

theorem Widens.insert (h : a.Widens short long) :
    a.start ≤ short.length ∧ short.take a.start ++ a.text ++ short.drop a.start = long := by
  obtain ⟨x, y, hx, rfl, rfl⟩ := h
  rw [← hx]
  exact ⟨by simp, by simp⟩

theorem Widens.delete (h : a.Widens short long) (hstop : a.stop = a.start + a.text.length) :
    (a.start ≤ a.stop ∧ a.stop ≤ long.length) ∧
      long.take a.start ++ long.drop a.stop = short := by
  obtain ⟨x, y, hx, rfl, rfl⟩ := h
  rw [hstop, ← hx]
  refine ⟨⟨by omega, by simp⟩, ?_⟩
  rw [List.append_assoc, List.take_left, ← List.append_assoc, ← List.length_append,
    List.drop_left]

end Action

/-- The document does not refuse the edit. -/
def ReplayCommand.AcceptedBy (d : Document) : ReplayCommand → Prop
  | .insert o t => ∃ d', d.insert o t = (d', .ok ())
  | .delete start stop => ∃ d' t, d.delete start stop = (d', .ok t)
  | _ => True

namespace Buffer

variable {H : Type} [Observer H]

/-- The document refuses none of the edits that are replayed one after the other. -/
def Accepts (b : Buffer H) : List ReplayCommand → Prop
  | [] => True
  | step :: steps => step.AcceptedBy b.doc ∧ (b.replay step).Accepts steps

/-- What comes of a replay of which no edit is refused. -/
structure Replays (b : Buffer H) (steps : List ReplayCommand) (t : Text) (modified : Bool) :
    Prop where
  accepts : b.Accepts steps
  text : (steps.foldl replay b).doc.text = t
  modified : (steps.foldl replay b).doc.modified = modified
  actionDepth : (steps.foldl replay b).actionDepth = b.actionDepth

variable {b : Buffer H} {steps steps' : List ReplayCommand} {t t' : Text} {m m' : Bool}
  {a : Action} {as : List Action}

namespace Replays

theorem nil (b : Buffer H) : b.Replays [] b.doc.text b.doc.modified := ⟨trivial, rfl, rfl, rfl⟩

theorem append (h : b.Replays steps t m) (h' : (steps.foldl replay b).Replays steps' t' m') :
    b.Replays (steps ++ steps') t' m' := by
  refine ⟨?_, ?_, ?_, ?_⟩
  · have hall := h.accepts
    clear h
    induction steps generalizing b with
    | nil => exact h'.accepts
    | cons step steps ih => exact ⟨hall.1, ih h' hall.2⟩
  · rw [List.foldl_append, h'.text]
  · rw [List.foldl_append, h'.modified]
  · rw [List.foldl_append, h'.actionDepth, h.actionDepth]

/-- A command that is no edit. -/
theorem of_mark {step : ReplayCommand} (ha : step.AcceptedBy b.doc)
    (h : b.Alike (b.replay step)) : b.Replays [step] b.doc.text b.doc.modified :=
  ⟨⟨ha, trivial⟩, h.text, h.modified, h.actionDepth⟩

theorem setModified (b : Buffer H) (m : Bool) : b.Replays [.setModified m] b.doc.text m :=
  ⟨⟨trivial, trivial⟩, rfl, rfl, rfl⟩

theorem placeCursor (b : Buffer H) (o : Nat) :
    b.Replays [.placeCursor o] b.doc.text b.doc.modified :=
  .of_mark trivial ⟨rfl, rfl, rfl, rfl⟩

theorem selectRange (b : Buffer H) (insert bound : Nat) :
    b.Replays [.selectRange insert bound] b.doc.text b.doc.modified :=
  .of_mark trivial ⟨rfl, rfl, rfl, rfl⟩

/-- On the way from one place to the next the flag follows the saved state. -/
theorem flagCommand (c : Buffer H) {h : History} {old new : Nat} (hne : old ≠ new)
    (hflag : c.doc.modified = false ↔ h.saved = some old) :
    ∃ m, c.Replays (h.flagCommand old new) c.doc.text m ∧
      (m = false ↔ h.saved = some new) := by
  unfold History.flagCommand
  cases hs : h.saved with
  | none =>
    rw [hs] at hflag
    exact ⟨_, .nil c, hflag.trans (by simp)⟩
  | some s =>
    rw [hs] at hflag
    simp only [Option.some.injEq] at hflag ⊢
    by_cases hold : old = s
    · rw [if_pos hold]
      exact ⟨true, .setModified c true, by simp; omega⟩
    · rw [if_neg hold]
      by_cases hnew : new = s
      · rw [if_pos hnew]
        exact ⟨false, .setModified c false, by simp [hnew]⟩
      · rw [if_neg hnew]
        exact ⟨_, .nil c, hflag.trans ⟨fun h => absurd h.symm hold, fun h => absurd h.symm hnew⟩⟩

theorem selectionBefore (c : Buffer H) (a : Action) :
    c.Replays [a.selectionBefore] c.doc.text c.doc.modified := by
  unfold Action.selectionBefore
  split
  · exact .placeCursor c _
  · exact .selectRange c _ _
  · exact .placeCursor c _

theorem selectionAfter (c : Buffer H) (a : Action) :
    c.Replays [a.selectionAfter] c.doc.text c.doc.modified := by
  unfold Action.selectionAfter
  split <;> exact .placeCursor c _

/-- A selection is shown if there is one to show. -/
theorem head (c : Buffer H) {f : Action → ReplayCommand}
    (hf : ∀ a, c.Replays [f a] c.doc.text c.doc.modified) (as : List Action) :
    c.Replays (as.head?.map f).toList c.doc.text c.doc.modified := by
  cases as with
  | nil => exact .nil c
  | cons a as => exact hf a

variable [Quiet H]

theorem insert {o : Nat} {s : Text} (ho : o ≤ b.doc.length) :
    b.Replays [.insert o s] (b.doc.text.take o ++ s ++ b.doc.text.drop o) b.doc.modified := by
  have hquiet := alike_notifyIfOn { b with doc := b.doc.inserted o s }
    fun h d => Quiet.textInserted h d o s.length
  have hreplay := b.replay_insert o s
  rw [if_pos ho] at hreplay
  rw [← hreplay] at hquiet
  exact ⟨⟨⟨_, (b.doc.insert_eq o s).trans (if_pos ho)⟩, trivial⟩,
    hquiet.text.trans (b.doc.text_inserted o s),
    hquiet.modified.trans (b.doc.modified_inserted o s), hquiet.actionDepth⟩

theorem delete {start stop : Nat} (h : start ≤ stop ∧ stop ≤ b.doc.length) :
    b.Replays [.delete start stop] (b.doc.text.take start ++ b.doc.text.drop stop)
      b.doc.modified := by
  have hquiet := alike_notifyIfOn { b with doc := b.doc.deleted start stop }
    fun h d => Quiet.textDeleted h d start (stop - start)
  have hreplay := b.replay_delete start stop
  rw [if_pos h] at hreplay
  rw [← hreplay] at hquiet
  exact ⟨⟨⟨_, _, Document.delete_of_mem h.1 h.2⟩, trivial⟩,
    hquiet.text.trans (b.doc.text_deleted start stop),
    hquiet.modified.trans (b.doc.modified_deleted start stop), hquiet.actionDepth⟩

theorem redo (h : a.Leads b.doc.text t) : b.Replays [a.redo] t b.doc.modified := by
  obtain ⟨hstop, h⟩ := h
  unfold Action.redo
  cases hk : a.kind with
  | insertion =>
    rw [hk] at h
    obtain ⟨hin, rfl⟩ := h.insert
    exact .insert hin
  | deletion =>
    rw [hk] at h
    obtain ⟨hin, rfl⟩ := h.delete hstop
    exact .delete hin

theorem undo (h : a.Leads t b.doc.text) : b.Replays [a.undo] t b.doc.modified := by
  obtain ⟨hstop, h⟩ := h
  unfold Action.undo
  cases hk : a.kind with
  | insertion =>
    rw [hk] at h
    obtain ⟨hin, rfl⟩ := h.delete hstop
    exact .delete hin
  | deletion =>
    rw [hk] at h
    obtain ⟨hin, rfl⟩ := h.insert
    exact .insert hin

/-- Actions are done again from the first one on. -/
theorem redoAll (h : LeadAll as b.doc.text t) :
    b.Replays (as.map Action.redo) t b.doc.modified := by
  obtain ⟨s, hs⟩ : ∃ s, s = b.doc.text := ⟨_, rfl⟩
  rw [← hs] at h
  induction h generalizing b with
  | nil => exact hs ▸ .nil b
  | cons first rest ih =>
    have hfirst := redo (hs ▸ first)
    have hrest := ih hfirst.text.symm
    rw [hfirst.modified] at hrest
    exact hfirst.append hrest

/-- They are taken back from the last one on. -/
theorem undoAll (h : LeadAll as t b.doc.text) :
    b.Replays (as.reverse.map Action.undo) t b.doc.modified := by
  obtain ⟨s, hs⟩ : ∃ s, s = b.doc.text := ⟨_, rfl⟩
  rw [← hs] at h
  induction h with
  | nil => exact hs ▸ .nil b
  | cons first rest ih =>
    have hrest := ih hs
    have hfirst := undo (hrest.text ▸ first)
    rw [hrest.modified] at hfirst
    rw [List.reverse_cons, List.map_append]
    exact hrest.append hfirst

end Replays

end Buffer
end CodeBuffer
