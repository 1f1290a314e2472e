import CodeBuffer.Proofs.Document.Adjacent
import CodeBuffer.Proofs.History.Replaying
import CodeBuffer.Proofs.History.Timeline

namespace CodeBuffer

namespace Document

theorem replay_insert (d : Document) (o : Nat) (t : Text) :
    d.replay (.insert o t) = if o ≤ d.length then d.inserted o t else d := by
  rw [replay, insert_eq]
  split <;> rfl

theorem replay_delete (d : Document) (start stop : Nat) :
    d.replay (.delete start stop) =
      if start ≤ stop ∧ stop ≤ d.length then d.deleted start stop else d :=
  d.delete_fst start stop

/-- No replay looks at the count of the edits. -/
theorem SameButGeneration.replay {d d' : Document} (h : d.SameButGeneration d')
    (step : ReplayCommand) : (d.replay step).SameButGeneration (d'.replay step) := by
  have hlength : d'.length = d.length := by
    obtain ⟨n, rfl⟩ := h
    rfl
  cases step with
  | insert o t =>
    rw [replay_insert, replay_insert, hlength]
    split
    · exact h.inserted o t
    · exact h
  | delete start stop =>
    rw [replay_delete, replay_delete, hlength]
    split
    · exact h.deleted start stop
    · exact h
  | placeCursor o => exact h.selectRange o o
  | selectRange i j => exact h.selectRange i j
  | setModified m =>
    obtain ⟨n, rfl⟩ := h
    exact ⟨n, rfl⟩

end Document

namespace Action

/-- The action is done again, and the selection that belongs to it is shown. -/
def redoOn (a : Action) (d : Document) : Document := (d.replay a.redo).replay a.selectionAfter

/-- The action is undone, and the selection that belongs to it is shown. -/
def undoOn (a : Action) (d : Document) : Document := (d.replay a.undo).replay a.selectionBefore

variable {a b c : Action} {d d' : Document} {t t' : Text}

theorem undoOn_congr (a : Action) (h : d.SameButGeneration d') :
    (a.undoOn d).SameButGeneration (a.undoOn d') := (h.replay a.undo).replay a.selectionBefore

theorem Widens.replay_insert (h : a.Widens d.text t) :
    a.start ≤ d.length ∧ (d.inserted a.start a.text).text = t ∧
      d.replay (.insert a.start a.text) = d.inserted a.start a.text := by
  obtain ⟨ho, htext⟩ := h.insert
  exact ⟨ho, (d.text_inserted _ _).trans htext, (d.replay_insert _ _).trans (if_pos ho)⟩

theorem Widens.replay_delete (h : a.Widens t d.text) (hstop : a.stop = a.start + a.text.length) :
    a.stop ≤ d.length ∧ (d.deleted a.start a.stop).text = t ∧
      d.replay (.delete a.start a.stop) = d.deleted a.start a.stop := by
  obtain ⟨hin, htext⟩ := h.delete hstop
  exact ⟨hin.2, (d.text_deleted _ _).trans htext, (d.replay_delete _ _).trans (if_pos hin)⟩

theorem Leads.redoOn_insertion (h : a.Leads d.text t) (hk : a.kind = .insertion) :
    a.start ≤ d.length ∧ (d.inserted a.start a.text).text = t ∧
      a.redoOn d = (d.inserted a.start a.text).selectRange a.stop a.stop := by
  rw [Leads, hk] at h
  obtain ⟨ho, htext, hreplay⟩ := h.2.replay_insert
  refine ⟨ho, htext, ?_⟩
  rw [redoOn, redo, selectionAfter, hk, ← hreplay]
  rfl

theorem Leads.redoOn_deletion (h : a.Leads d.text t) (hk : a.kind = .deletion) :
    a.stop ≤ d.length ∧ (d.deleted a.start a.stop).text = t ∧
      a.redoOn d = (d.deleted a.start a.stop).selectRange a.start a.start := by
  rw [Leads, hk] at h
  obtain ⟨hin, htext, hreplay⟩ := h.2.replay_delete h.1
  refine ⟨hin, htext, ?_⟩
  rw [redoOn, redo, selectionAfter, hk, ← hreplay]
  rfl

theorem Leads.undoOn_insertion (h : a.Leads t d.text) (hk : a.kind = .insertion) :
    a.stop ≤ d.length ∧ (d.deleted a.start a.stop).text = t ∧
      a.undoOn d = (d.deleted a.start a.stop).selectRange a.start a.start := by
  rw [Leads, hk] at h
  obtain ⟨hin, htext, hreplay⟩ := h.2.replay_delete h.1
  refine ⟨hin, htext, ?_⟩
  rw [undoOn, undo, selectionBefore, hk, ← hreplay]
  rfl

theorem Leads.undoOn_deletion (h : a.Leads t d.text) (hk : a.kind = .deletion) {i j : Nat}
    (hs : a.selection = some (i, j)) :
    a.start ≤ d.length ∧ (d.inserted a.start a.text).text = t ∧
      a.undoOn d = (d.inserted a.start a.text).selectRange i j := by
  rw [Leads, hk] at h
  obtain ⟨ho, htext, hreplay⟩ := h.2.replay_insert
  refine ⟨ho, htext, ?_⟩
  rw [undoOn, undo, selectionBefore, hk, hs, ← hreplay]
  rfl

/-- The later of two edits carries the earlier one on: a text behind a text, or a range deleted with
the delete key or with backspace next to another one. -/
inductive Joined (a b : Action) : Action → Prop where
  | typed (hka : a.kind = .insertion) (hkb : b.kind = .insertion) (hjoin : a.stop = b.start) :
      Joined a b { a with text := a.text ++ b.text, stop := b.stop }
  | forward (hka : a.kind = .deletion) (hkb : b.kind = .deletion)
      (hsa : a.selection = some (a.start, a.start)) (hsb : b.selection = some (b.start, b.start))
      (hjoin : a.start = b.start) :
      Joined a b { a with text := a.text ++ b.text, stop := a.stop + (b.stop - b.start) }
  | backward (hka : a.kind = .deletion) (hkb : b.kind = .deletion)
      (hsa : a.selection = some (a.stop, a.stop)) (hsb : b.selection = some (b.stop, b.stop))
      (hjoin : a.start = b.stop) :
      Joined a b { a with text := b.text ++ a.text, start := b.start }

theorem selection_of_deleteKey (h : a.deletionKind = .deleteKey) :
    a.selection = some (a.start, a.start) := by
  unfold deletionKind DeletionKind.infer at h
  split at h
  · cases h
  · rename_i i j hs
    split at h
    · cases h
    · split at h
      · rename_i hstart
        rw [hs, hstart.1, hstart.2]
      · cases h

theorem selection_of_backspace (h : a.deletionKind = .backspace) :
    a.selection = some (a.stop, a.stop) := by
  unfold deletionKind DeletionKind.infer at h
  split at h
  · cases h
  · rename_i i j hs
    split at h
    · rename_i hstop
      rw [hs, hstop.1, hstop.2]
    · split at h <;> cases h

theorem ne_nil_of_continuesBetween (h : continuesBetween t t' = true) : t ≠ [] ∧ t' ≠ [] := by
  unfold continuesBetween at h
  split at h
  · rename_i c d hc hd
    exact ⟨fun ht => by simp [ht] at hc, fun ht => by simp [ht] at hd⟩
  · cases h

/-- Edits that are merged carry each other on, and neither is without text. -/
theorem joined_of_merge? (h : a.merge? b = some c) : Joined a b c ∧ a.text ≠ [] ∧ b.text ≠ [] := by
  unfold merge? at h
  split at h
  · rename_i hka hkb
    split at h
    · rename_i hjoin
      rw [← Option.some.inj h]
      exact ⟨.typed hka hkb hjoin.1, ne_nil_of_continuesBetween hjoin.2⟩
    · cases h
  · rename_i hka hkb
    split at h
    · rename_i hsa hsb
      split at h
      · rename_i hjoin
        rw [← Option.some.inj h]
        exact ⟨.forward hka hkb (selection_of_deleteKey hsa) (selection_of_deleteKey hsb) hjoin.1,
          ne_nil_of_continuesBetween hjoin.2⟩
      · cases h
    · rename_i hsa hsb
      split at h
      · rename_i new old hnew hold
        split at h
        · rename_i hjoin
          rw [← Option.some.inj h]
          have hjoined : Joined a b _ := .backward hka hkb (selection_of_backspace hsa)
            (selection_of_backspace hsb) hjoin.1
          exact ⟨hjoined, fun ht => by simp [ht] at hold, fun ht => by simp [ht] at hnew⟩
        · cases h
      · cases h
    · cases h
  · cases h

theorem Leads.text_redoOn (h : a.Leads d.text t) : (a.redoOn d).text = t := by
  cases hk : a.kind with
  | insertion =>
    obtain ⟨-, htext, heq⟩ := h.redoOn_insertion hk
    rw [heq]
    exact htext
  | deletion =>
    obtain ⟨-, htext, heq⟩ := h.redoOn_deletion hk
    rw [heq]
    exact htext

theorem Leads.lt_stop (h : a.Leads t t') (hne : a.text ≠ []) : a.start < a.stop := by
  have := List.length_pos_of_ne_nil hne
  have := h.1
  omega

theorem Joined.leads (hj : Joined a b c) {t'' : Text} (ha : a.Leads t t') (hb : b.Leads t' t'') :
    c.Leads t t'' := by
  cases hj with
  | typed hka hkb hjoin => exact ha.merge_insertions hb hka hkb hjoin
  | forward hka hkb hsa hsb hjoin => exact ha.merge_forward hb hka hkb hjoin
  | backward hka hkb hsa hsb hjoin => exact ha.merge_backward hb hka hkb hjoin

/-- To do the joined edit again is to do both again. -/
theorem Joined.redoOn (hj : Joined a b c) (ha : a.Leads d.text t) (hb : b.Leads t t')
    (hna : a.text ≠ []) (hnb : b.text ≠ []) :
    (b.redoOn (a.redoOn d)).SameButGeneration (c.redoOn d) := by
  have hc := hj.leads ha hb
  have hlt := ha.lt_stop hna
  have hlt' := hb.lt_stop hnb
  have hb' : b.Leads (a.redoOn d).text t' := by rw [ha.text_redoOn]; exact hb
  cases hj with
  | typed hka hkb hjoin =>
    obtain ⟨ho, -, hfirst⟩ := ha.redoOn_insertion hka
    rw [(hb'.redoOn_insertion hkb).2.2, hfirst, Document.selectRange_inserted_selectRange,
      (hc.redoOn_insertion hka).2.2, ← hjoin, ha.1]
    exact (Document.inserted_behind ho hna hnb).selectRange _ _
  | forward hka hkb hsa hsb hjoin =>
    obtain ⟨hstop, -, hfirst⟩ := ha.redoOn_deletion hka
    rw [(hb'.redoOn_deletion hkb).2.2, hfirst, Document.selectRange_deleted_selectRange,
      (hc.redoOn_deletion hka).2.2, hjoin]
    have hlen : b.start + (b.stop - b.start) = b.stop := by omega
    have hboth := Document.deleted_forward (hjoin ▸ hlt) hstop (by omega : 0 < b.stop - b.start)
    rw [hlen] at hboth
    exact hboth.selectRange _ _
  | backward hka hkb hsa hsb hjoin =>
    obtain ⟨hstop, -, hfirst⟩ := ha.redoOn_deletion hka
    rw [(hb'.redoOn_deletion hkb).2.2, hfirst, Document.selectRange_deleted_selectRange,
      (hc.redoOn_deletion hka).2.2, ← hjoin]
    exact (Document.deleted_backward (by omega) hlt hstop).selectRange _ _

/-- To undo the joined edit is to undo both, the later one first. -/
theorem Joined.undoOn (hj : Joined a b c) (ha : a.Leads t t') (hb : b.Leads t' d.text)
    (hna : a.text ≠ []) (hnb : b.text ≠ []) :
    (a.undoOn (b.undoOn d)).SameButGeneration (c.undoOn d) := by
  have hc := hj.leads ha hb
  have hlt := ha.lt_stop hna
  have hlt' := hb.lt_stop hnb
  cases hj with
  | typed hka hkb hjoin =>
    obtain ⟨hstop, htext, hfirst⟩ := hb.undoOn_insertion hkb
    have ha' : a.Leads t (b.undoOn d).text := by rw [hfirst]; exact htext ▸ ha
    rw [(ha'.undoOn_insertion hka).2.2, hfirst, Document.selectRange_deleted_selectRange,
      (hc.undoOn_insertion hka).2.2, hjoin]
    exact (Document.deleted_backward (by omega) hlt' hstop).selectRange _ _
  | forward hka hkb hsa hsb hjoin =>
    obtain ⟨ho, htext, hfirst⟩ := hb.undoOn_deletion hkb hsb
    have ha' : a.Leads t (b.undoOn d).text := by rw [hfirst]; exact htext ▸ ha
    rw [(ha'.undoOn_deletion hka hsa).2.2, hfirst, Document.selectRange_inserted_selectRange,
      (hc.undoOn_deletion hka hsa).2.2, hjoin]
    exact (Document.inserted_before ho hna hnb).selectRange _ _
  | backward hka hkb hsa hsb hjoin =>
    obtain ⟨ho, htext, hfirst⟩ := hb.undoOn_deletion hkb hsb
    have ha' : a.Leads t (b.undoOn d).text := by rw [hfirst]; exact htext ▸ ha
    rw [(ha'.undoOn_deletion hka hsa).2.2, hfirst, Document.selectRange_inserted_selectRange,
      (hc.undoOn_deletion hka hsa).2.2, hjoin, hb.1]
    exact (Document.inserted_behind ho hnb hna).selectRange _ _

end Action

namespace History

/-- Gathered edits that are not merged become a step of their own, behind those that there are. -/
theorem closePending_of_not_merged {h : History} {before : List Step} {last step : Step}
    (hp : h.pending = some step) (hne : step.actions ≠ [])
    (hsteps : h.steps.take h.location = before ++ [last]) (hnone : last.merge? step = none) :
    ∃ g : History, h.closePending = g.trim ∧
      g.steps.map Step.actions = before.map Step.actions ++ [last.actions, step.actions] := by
  obtain ⟨g, hg⟩ : ∃ g, g = { h with pending := none }.forgetUndone := ⟨_, rfl⟩
  have hdone : g.steps = before ++ [last] := by
    rw [hg, forgetUndone]
    split
    · rename_i hle
      rw [← hsteps, List.take_of_length_le hle]
    · exact hsteps
  have hapart : g.mergeLast? step = none := by
    unfold mergeLast?
    split
    · rfl
    · rw [hdone, List.getLast?_concat, Option.bind_some, hnone]
      rfl
  refine ⟨g.extended step, ?_, ?_⟩
  · rw [h.closePending_of_some hp hne hg, hapart]
    rfl
  · rw [extended, List.map_append, map_actions_sealed, hdone]
    simp

end History

namespace Action

variable {a b : Action} {d : Document} {t t' : Text}

/-- Where an edit is merged into the one before it, to do the merged edit again is to do both again,
and to undo it from there is to undo both: text, marks, tags and selection are the same. Where it is
not merged, the edit before it stays as it is, and a step of its own follows. -/
theorem merge_invisible (ha : a.Leads d.text t) (hb : b.Leads t t') :
    (∀ c, a.merge? b = some c →
      (b.redoOn (a.redoOn d)).SameButGeneration (c.redoOn d) ∧
        (a.undoOn (b.undoOn (b.redoOn (a.redoOn d)))).SameButGeneration
          (c.undoOn (c.redoOn d))) ∧
      (a.merge? b = none → ∀ (h : History) (before : List Step) (closed closed' : Bool),
        h.pending = some ⟨[b], closed'⟩ → h.steps.take h.location = before ++ [⟨[a], closed⟩] →
          ∃ g : History, h.closePending = g.trim ∧
            g.steps.map Step.actions = before.map Step.actions ++ [[a], [b]]) := by
  refine ⟨fun c hc => ?_, fun hnone h before closed closed' hp hsteps => ?_⟩
  · obtain ⟨hj, hna, hnb⟩ := joined_of_merge? hc
    have hredo := hj.redoOn ha hb hna hnb
    have hb' : b.Leads (a.redoOn d).text t' := by rw [ha.text_redoOn]; exact hb
    have hback : b.Leads t (b.redoOn (a.redoOn d)).text := by rw [hb'.text_redoOn]; exact hb
    exact ⟨hredo, (hj.undoOn ha hback hna hnb).trans (c.undoOn_congr hredo)⟩
  · refine History.closePending_of_not_merged hp (List.cons_ne_nil b []) hsteps ?_
    simp [Step.merge?, hnone]

/-- A mark of left gravity and a tag where the text is going to be edited. -/
def tagged : Document :=
  { Document.new 0 ['a', 'b', 'c', 'd'] with
    marks := [some ⟨3, false⟩, some ⟨3, false⟩, some ⟨2, true⟩]
    tags := (TagTable.empty.create "name" none).2.modifyRanges 0 (·.add 1 3) }

def backspacedC : Action := ⟨.deletion, 2, 3, ['c'], some (3, 3)⟩

def backspacedB : Action := ⟨.deletion, 1, 2, ['b'], some (2, 2)⟩

def backspacedBoth : Action := ⟨.deletion, 1, 3, ['b', 'c'], some (3, 3)⟩

theorem merge_invisible_backspaced :
    backspacedC.merge? backspacedB = some backspacedBoth ∧
      (backspacedB.redoOn (backspacedC.redoOn tagged)).SameButGeneration
        (backspacedBoth.redoOn tagged) ∧
      (backspacedC.undoOn (backspacedB.undoOn (backspacedB.redoOn (backspacedC.redoOn tagged)))
        ).SameButGeneration (backspacedBoth.undoOn (backspacedBoth.redoOn tagged)) := by
  have hc : backspacedC.Leads tagged.text ['a', 'b', 'd'] := ⟨rfl, ['a', 'b'], ['d'], rfl, rfl, rfl⟩
  have hb : backspacedB.Leads ['a', 'b', 'd'] ['a', 'd'] := ⟨rfl, ['a'], ['d'], rfl, rfl, rfl⟩
  exact ⟨rfl, (merge_invisible hc hb).1 backspacedBoth rfl⟩

end Action
end CodeBuffer
