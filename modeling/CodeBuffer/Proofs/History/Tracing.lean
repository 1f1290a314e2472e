import CodeBuffer.Proofs.History.Calls
import CodeBuffer.Proofs.History.Coherent
import CodeBuffer.Proofs.History.Replaying

namespace CodeBuffer
namespace History

/-- The steps, and the edits gathered since, lead to the text, whatever its flag says. -/
def Traces (L : Text → Prop) (saved t : Text) (h : History) : Prop :=
  ∃ texts, Timeline L none saved h texts ∧ LeadAll h.gathered (texts h.location) t

/-- The saved place is the present one, but edits were gathered since. -/
def Overlooks (h : History) : Prop := h.AtSaved ∧ h.hasPending = true

instance (h : History) : Decidable h.Overlooks :=
  inferInstanceAs (Decidable (h.saved = some h.location ∧ h.hasPending = true))

variable {L L' : Text → Prop} {saved t t' : Text} {h h' : History} {a : Action}

theorem Traces.mono (ht : h.Traces L saved t) (hL : ∀ t, L t → L' t) : h.Traces L' saved t := by
  obtain ⟨texts, ht, hp⟩ := ht
  exact ⟨texts, ht.mono hL, hp⟩

/-- Open user actions, suspensions and limits do not matter. -/
theorem Traces.of_eq (ht : h.Traces L saved t) (hsteps : h'.steps = h.steps)
    (hlocation : h'.location = h.location) (hsaved : h'.saved = h.saved)
    (hpending : h'.pending = h.pending) : h'.Traces L saved t := by
  obtain ⟨texts, ht, hp⟩ := ht
  have hgathered : h'.gathered = h.gathered := by rw [gathered, hpending]; rfl
  refine ⟨texts, ⟨?_, ?_, ?_, ?_, ht.origin⟩, ?_⟩
  · rw [hsteps, hlocation]
    exact ht.location_le
  · rw [hsteps]
    exact ht.leads
  · rw [hsteps]
    exact ht.landmark
  · rw [hsteps, hsaved]
    exact ht.saved
  · rw [hgathered, hlocation]
    exact hp

theorem Bare.traces (hb : h.Bare) (hL : L t) (hsaved : h.saved ≠ none → t = saved) :
    h.Traces L saved t := by
  have hgathered : h.gathered = [] := by rw [gathered, hb.pending]; rfl
  refine ⟨fun _ => t, .single hL hb.steps hb.location (fun i hi => ⟨hb.saved i hi, ?_⟩) ?_,
    hgathered ▸ .nil t⟩
  · exact hsaved (by rw [hi]; exact Option.some_ne_none i)
  · intro _ horigin
    cases horigin

theorem Traces.forget (ht : h.Traces L saved t) : { h with saved := none }.Traces L saved t := by
  obtain ⟨texts, ht, hp⟩ := ht
  exact ⟨texts, { ht with saved := fun i hi => by cases hi }, hp⟩

theorem Traces.gather (ht : h.Traces L saved t) (ha : a.Leads t t') :
    { h with pending := some ((h.pending.getD ⟨[], false⟩).push a) }.Traces L saved t' := by
  obtain ⟨texts, ht, hp⟩ := ht
  refine ⟨texts, ht.pending _, ?_⟩
  have hgathered : ({ h with pending := some ((h.pending.getD ⟨[], false⟩).push a) } :
      History).gathered = h.gathered ++ [a] := by
    rw [gathered, gathered]
    cases h.pending <;> rfl
  rw [hgathered]
  exact hp.snoc ha

theorem Traces.closePending (ht : h.Traces L saved t) (hlimit : h.limit ≠ 0)
    (hL : h.hasPending = true → L t) : h.closePending.Traces L saved t := by
  obtain ⟨texts, ht, hp⟩ := ht
  obtain ⟨texts', ht', hhere, -⟩ := ht.closePending hp hL hlimit fun h => absurd rfl h
  have hnone : h.closePending.gathered = [] := by rw [gathered, pending_closePending]; rfl
  exact ⟨texts', ht', hnone ▸ hhere ▸ .nil _⟩

theorem Traces.push (ht : h.Traces L saved t) (ha : a.Leads t t') (hlimit : h.limit ≠ 0)
    (hL : h.inUserAction = false → L t') : (h.push a).Traces L saved t' := by
  have hgathered := ht.gather ha
  unfold History.push
  dsimp only
  split
  · exact hgathered
  · rename_i hopen
    exact hgathered.closePending hlimit fun _ => hL (Bool.eq_false_iff.2 hopen)

theorem Traces.trim (ht : h.Traces L saved t) (hlimit : h.limit ≠ 0) :
    h.trim.Traces L saved t := by
  obtain ⟨texts, ht, hp⟩ := ht
  obtain ⟨texts', ht', hhere, -⟩ := keeps_trim hlimit (fun h => absurd rfl h) ht
  refine ⟨texts', ht', ?_⟩
  rw [gathered, pending_trim_of_limit hlimit, hhere]
  exact hp

theorem Traces.changed (ht : h.Traces L saved t) : (h.modifiedChanged true).Traces L saved t := by
  unfold History.modifiedChanged
  split
  · exact ht
  · rw [if_pos rfl]
    split
    · exact ht.forget
    · exact ht

/-- The present text is the saved one. -/
theorem Traces.save (ht : h.Traces L saved t) (hrec : h.isRecording = true)
    (hsettled : h.inUserAction = false → h.pending = none) (hL : L t) :
    (h.modifiedChanged false).Traces L t t := by
  have hsave : h.modifiedChanged false =
      { h.closePending with saved := some h.closePending.location } := by
    rw [History.modifiedChanged, hrec]
    simp only [Bool.not_true, Bool.false_eq_true, if_false]
    cases hopen : h.inUserAction with
    | true => rfl
    | false => rw [closePending_of_settled (hsettled hopen)]; rfl
  obtain ⟨texts, ht, hp⟩ := ht.closePending (isRecording_iff.1 hrec).2 fun _ => hL
  have hnone : h.closePending.gathered = [] := by rw [gathered, pending_closePending]; rfl
  have hhere : t = texts h.closePending.location := (hnone ▸ hp).eq_of_nil
  rw [hsave]
  refine ⟨texts, { ht with saved := fun i hi => ?_ }, hp⟩
  obtain rfl := Option.some.inj hi
  exact ⟨ht.location_le, hhere.symm⟩

/-- To clear the history keeps the saved place in mind only if that is the present one. Then the
text is the saved one, unless edits were overlooked. -/
theorem Traces.eq_saved (ht : h.Traces L saved t) (hkept : h.clear.saved ≠ none)
    (hnot : ¬h.Overlooks) : t = saved := by
  obtain ⟨texts, ht, hp⟩ := ht
  have hat : h.AtSaved := by
    unfold History.clear at hkept
    rw [ne_eq, Option.map_eq_none_iff, Option.filter_eq_none_iff] at hkept
    simpa [AtSaved] using hkept
  have hnone : h.gathered = [] := by
    have hpending : ¬h.hasPending = true := fun hp => hnot ⟨hat, hp⟩
    simpa [hasPending_eq] using hpending
  rw [hnone] at hp
  rw [hp.eq_of_nil]
  exact (ht.saved _ hat).2

/-- Without steps only the present text is known. It is taken for the saved one even if it was
reached from there by edits that were gathered. -/
theorem Traces.clear (ht : h.Traces L saved t) (hL : L t) :
    h.clear.Traces L (if h.Overlooks then t else saved) t := by
  refine (bare_clear h).traces hL fun hkept => ?_
  split
  · rfl
  · rename_i hnot
    exact ht.eq_saved hkept hnot

/-- A step between two places clears the flag only where it comes to the saved one. -/
theorem mem_flagCommand {old new : Nat} (hmem : .setModified false ∈ h.flagCommand old new) :
    h.saved = some new := by
  unfold flagCommand at hmem
  split at hmem
  · cases hmem
  · rename_i s hs
    split at hmem
    · simp at hmem
    · split at hmem
      · rename_i hnew
        rw [hs, hnew]
      · cases hmem

end History

namespace Action

variable (a : Action)

theorem undo_ne_setModified (m : Bool) : a.undo ≠ .setModified m := by
  unfold undo
  split <;> exact ReplayCommand.noConfusion

theorem redo_ne_setModified (m : Bool) : a.redo ≠ .setModified m := by
  unfold redo
  split <;> exact ReplayCommand.noConfusion

theorem selectionBefore_ne_setModified (m : Bool) : a.selectionBefore ≠ .setModified m := by
  unfold selectionBefore
  split <;> exact ReplayCommand.noConfusion

theorem selectionAfter_ne_setModified (m : Bool) : a.selectionAfter ≠ .setModified m := by
  unfold selectionAfter
  split <;> exact ReplayCommand.noConfusion

end Action

namespace Buffer

variable {H : Type} [Observer H] {L : Text → Prop} {saved t : Text} {m : Bool} {b : Buffer H}
  {texts : Nat → Text} {steps edits mark : List ReplayCommand}

/-- A replay touches the document only, and tells the observer. -/
theorem foldl_replay_eq (b : Buffer H) (steps : List ReplayCommand) :
    ∃ doc observer, steps.foldl replay b = { b with doc, observer } := by
  have told (b : Buffer H) (doc : Document) (f : H → Document → H × Document) :
      ∃ doc' observer, { b with doc }.notifyIfOn f = { b with doc := doc', observer } := by
    unfold notifyIfOn
    split
    · exact ⟨_, _, rfl⟩
    · exact ⟨_, _, rfl⟩
  induction steps generalizing b with
  | nil => exact ⟨b.doc, b.observer, rfl⟩
  | cons step steps ih =>
    obtain ⟨doc, observer, heq⟩ : ∃ doc observer, b.replay step = { b with doc, observer } := by
      cases step with
      | insert o t =>
        rw [replay_insert]
        split
        · exact told b _ _
        · exact ⟨_, _, rfl⟩
      | delete start stop =>
        rw [replay_delete]
        split
        · exact told b _ _
        · exact ⟨_, _, rfl⟩
      | _ => exact ⟨_, _, rfl⟩
    obtain ⟨doc', observer', hrest⟩ := ih (b.replay step)
    refine ⟨doc', observer', ?_⟩
    rw [List.foldl_cons, hrest, heq]

/-- The flag does not matter to the text. -/
theorem Replays.exists_flagCommand (c : Buffer H) (h : History) (old new : Nat) :
    ∃ m, c.Replays (h.flagCommand old new) c.doc.text m := by
  unfold History.flagCommand
  split
  · exact ⟨_, .nil c⟩
  · split
    · exact ⟨_, .setModified c true⟩
    · split
      · exact ⟨_, .setModified c false⟩
      · exact ⟨_, .nil c⟩

/-- A replay that no edit of which is refused, to a place of the history. If it clears the flag, the
text is the saved one. -/
structure Reaches (L : Text → Prop) (saved : Text) (b : Buffer H) (steps : List ReplayCommand)
    (n : Nat) : Prop where
  accepts : b.Accepts steps
  traces : { b.history with location := n }.Traces L saved (steps.foldl replay b).doc.text
  landmark : L (steps.foldl replay b).doc.text
  saved : .setModified false ∈ steps → (steps.foldl replay b).doc.text = saved

theorem reaches_of_replays (ht : History.Timeline L none saved b.history texts) {n : Nat}
    (hn : n ≤ b.history.steps.length) (hnone : b.history.pending = none)
    (hedits : b.Replays edits (texts n) m)
    (hmark : ∀ c : Buffer H, c.Replays mark c.doc.text c.doc.modified)
    (hunflagged : .setModified false ∉ edits ∧ .setModified false ∉ mark) :
    b.Reaches L saved (edits ++ b.history.flagCommand b.history.location n ++ mark) n := by
  obtain ⟨m', hflag⟩ := Replays.exists_flagCommand (edits.foldl replay b) b.history
    b.history.location n
  have hall := (hedits.append hflag).append (hmark _)
  have htext := hall.text
  rw [(hedits.append hflag).text, hedits.text] at htext
  have hgathered : ({ b.history with location := n } : History).gathered = [] := by
    rw [History.gathered, hnone]
    rfl
  refine ⟨hall.accepts, ⟨texts, ⟨hn, ht.leads, ht.landmark, ht.saved, ht.origin⟩, ?_⟩, ?_, ?_⟩
  · rw [htext, hgathered]
    exact .nil _
  · rw [htext]
    exact ht.landmark n hn
  · intro hmem
    rw [htext]
    have hflagged : .setModified false ∈ b.history.flagCommand b.history.location n := by
      simpa [hunflagged] using hmem
    exact (ht.saved n (History.mem_flagCommand hflagged)).2

omit [Observer H] in
theorem unflagged_mark {f : Action → ReplayCommand} (hf : ∀ a, f a ≠ .setModified false)
    (as : List Action) : .setModified false ∉ as.map f ∧
      .setModified false ∉ (as.head?.map f).toList := by
  refine ⟨fun hmem => ?_, fun hmem => ?_⟩
  · obtain ⟨a, -, ha⟩ := List.mem_map.1 hmem
    exact hf a ha
  · obtain ⟨a, -, ha⟩ := Option.map_eq_some_iff.1 (Option.mem_toList.1 hmem)
    exact hf a ha

variable [Quiet H] {history : History}

/-- What is undone leads one place back. -/
theorem reaches_undo (hk : b.history.Kept) (ht : b.history.Traces L saved b.doc.text)
    (hundo : b.history.undo = .ok (steps, history)) :
    ∃ n, history = { b.history with location := n } ∧ b.Reaches L saved steps n := by
  obtain ⟨texts, ht, hp⟩ := ht
  have hle := ht.location_le
  obtain ⟨hclosed, hlocation, step, hstep, heq⟩ :=
    hk.toOrdered.undo_eq (History.canUndo_of_ok hundo)
  have hnone := hk.settled hclosed
  have hleads := ht.leads (b.history.location - 1) step.actions
    (by rw [List.getElem?_map, hstep]; rfl)
  rw [History.gathered, hnone] at hp
  rw [Nat.sub_add_cancel hlocation, ← hp.eq_of_nil] at hleads
  rw [hundo] at heq
  cases heq
  exact ⟨_, rfl, reaches_of_replays ht (by omega) hnone (.undoAll hleads)
    (fun c => .head c (Replays.selectionBefore c) step.actions)
    ⟨(unflagged_mark (·.undo_ne_setModified false) _).1,
      (unflagged_mark (·.selectionBefore_ne_setModified false) _).2⟩⟩

/-- What is done again leads one place on. -/
theorem reaches_redo (hk : b.history.Kept) (ht : b.history.Traces L saved b.doc.text)
    (hredo : b.history.redo = .ok (steps, history)) :
    ∃ n, history = { b.history with location := n } ∧ b.Reaches L saved steps n := by
  obtain ⟨texts, ht, hp⟩ := ht
  obtain ⟨hclosed, step, hstep, heq⟩ := History.redo_eq (History.canRedo_of_ok hredo)
  have hlt : b.history.location < b.history.steps.length := (List.getElem?_eq_some_iff.1 hstep).1
  have hnone := hk.settled hclosed
  have hleads := ht.leads b.history.location step.actions
    (by rw [List.getElem?_map, hstep]; rfl)
  rw [History.gathered, hnone] at hp
  rw [← hp.eq_of_nil] at hleads
  rw [hredo] at heq
  cases heq
  exact ⟨_, rfl, reaches_of_replays ht (by omega) hnone (.redoAll hleads)
    (fun c => .head c (Replays.selectionAfter c) step.actions)
    ⟨(unflagged_mark (·.redo_ne_setModified false) _).1,
      (unflagged_mark (·.selectionAfter_ne_setModified false) _).2⟩⟩

end Buffer
end CodeBuffer
