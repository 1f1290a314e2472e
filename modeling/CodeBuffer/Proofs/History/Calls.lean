import CodeBuffer.Proofs.History.Timeline

namespace CodeBuffer

/-- What may be asked of a history, in any order. -/
inductive HistoryCall where
  | recordInsert (o : Nat) (t : Text)
  | recordInsertAt (o : Nat) (t : Text) (selection : Nat × Nat)
  | recordKeyDelete (start stop : Nat) (t : Text) (forward : Bool)
  | recordDeleteAt (start stop : Nat) (t : Text) (selection : Nat × Nat)
  | beginUserAction
  | endUserAction
  | beginNotUndoable
  | endNotUndoable
  | modifiedChanged (modified : Bool)
  | setLimit (limit : Int)
  | clear
  | undo
  | redo
  deriving DecidableEq, Repr

/-- The insertion to be recorded. There is none without text, nor beyond the last position. -/
def Action.insertion? (o : Nat) (t : Text) (selection : Option (Nat × Nat)) : Option Action :=
  if t.isEmpty ∨ offsetLimit < o + t.length then none
  else some ⟨.insertion, o, o + t.length, t, selection⟩

def Action.deletion? (start stop : Nat) (t : Text) (selection : Option (Nat × Nat)) :
    Option Action :=
  if stop ≤ start then none else some ⟨.deletion, start, stop, t, selection⟩

/-- The edit that a call has to record. -/
def HistoryCall.edit? : HistoryCall → Option Action
  | .recordInsert o t => Action.insertion? o t none
  | .recordInsertAt o t selection =>
    Action.insertion? o t (if selection = (o, o) then some selection else none)
  | .recordKeyDelete start stop t forward =>
    Action.deletion? start stop t (some (if forward then (start, start) else (stop, stop)))
  | .recordDeleteAt start stop t selection =>
    let onEdge (o : Nat) : Bool := o == start || o == stop
    Action.deletion? start stop t
      (if onEdge selection.1 && onEdge selection.2 then some selection else none)
  | _ => none

namespace History

/-- A call that its caller had no right to make changes nothing. -/
def call (h : History) : HistoryCall → History
  | .recordInsert o t => if (h.checkInsert o t).isOk then h.recordInsert o t none else h
  | .recordInsertAt o t selection =>
    if (h.checkInsert o t).isOk then h.recordInsertAt o t selection else h
  | .recordKeyDelete start stop t forward => h.recordKeyDelete start stop t forward
  | .recordDeleteAt start stop t selection => h.recordDeleteAt start stop t selection
  | .beginUserAction => h.beginUserAction
  | .endUserAction => h.endUserAction.toOption.getD h
  | .beginNotUndoable => h.beginNotUndoable
  | .endNotUndoable => h.endNotUndoable.toOption.getD h
  | .modifiedChanged modified => h.modifiedChanged modified
  | .setLimit limit => h.setLimit limit
  | .clear => h.clear
  | .undo => (h.undo.toOption.map (·.2)).getD h
  | .redo => (h.redo.toOption.map (·.2)).getD h

def callAll (h : History) (cs : List HistoryCall) : History := cs.foldl call h

/-- Takes note of an edit, if there is one and if edits are recorded. -/
def recordEdit (h : History) (edit? : Option Action) : History :=
  if h.isRecording then edit?.elim h h.push else h

/-- The places of a history lie among its steps. No step is empty, and only the newest may grow. -/
structure Ordered (h : History) : Prop where
  location_le : h.location ≤ h.steps.length
  saved_le : ∀ s, h.saved = some s → s ≤ h.steps.length
  nonempty : ∀ g ∈ h.steps, g.actions ≠ []
  closed : ∀ g ∈ h.steps.dropLast, g.closed = true

/-- An ordered history that keeps to its limit. Edits are gathered in user actions only. -/
structure Kept (h : History) : Prop extends h.Ordered where
  limit_ge : -1 ≤ h.limit
  within : 0 ≤ h.limit → (h.steps.length : Int) ≤ h.limit
  gathers : h.pending ≠ none → h.inUserAction = true ∧ h.limit ≠ 0

variable {h h' : History} {step : Step} {a : Action}

/-! What a call comes down to -/

theorem recordInsert_eq_record (h : History) (o : Nat) (t : Text)
    (selection : Option (Nat × Nat)) :
    (if (h.checkInsert o t).isOk then h.recordInsert o t selection else h) =
      h.recordEdit (Action.insertion? o t selection) := by
  unfold checkInsert recordInsert recordEdit
  cases hrec : h.isRecording with
  | false => simp
  | true =>
    unfold Action.insertion? addOffset
    by_cases ht : t = []
    · simp [ht]
    by_cases hfits : o + t.length ≤ offsetLimit
    · simp [ht, hfits, Nat.not_lt.2 hfits, Except.map, Except.isOk, Except.toBool]
    · simp [ht, hfits, Nat.not_le.1 hfits, Except.map, Except.isOk, Except.toBool]

theorem recordDelete_eq_record (h : History) (start stop : Nat) (t : Text)
    (selection : Option (Nat × Nat)) :
    h.recordDelete start stop t selection =
      h.recordEdit (Action.deletion? start stop t selection) := by
  unfold recordDelete recordEdit
  cases hrec : h.isRecording with
  | false => simp
  | true =>
    unfold Action.deletion?
    by_cases hle : stop ≤ start <;> simp [hle]

/-- Recording is all that the calls with an edit do. -/
theorem call_of_edit {c : HistoryCall} (hc : c.edit? = some a) :
    h.call c = h.recordEdit (some a) := by
  rw [← hc]
  cases c with
  | recordInsert o t => exact h.recordInsert_eq_record o t none
  | recordInsertAt o t selection => exact h.recordInsert_eq_record o t _
  | recordKeyDelete start stop t forward => exact h.recordDelete_eq_record start stop t _
  | recordDeleteAt start stop t selection => exact h.recordDelete_eq_record start stop t _
  | _ => cases hc

theorem call_endUserAction (h : History) :
    h.call .endUserAction = if h.inUserAction then h.finishUserAction else h := by
  simp only [call, endUserAction]
  split <;> rfl

/-- The end of a suspension clears the history, unless there are others. -/
theorem call_endNotUndoable (h : History) :
    h.call .endNotUndoable = h ∨ h.call .endNotUndoable = { h with suspensions := 0 }.clear ∨
      ∃ n, h.call .endNotUndoable = { h with suspensions := n } := by
  simp only [call, endNotUndoable]
  split
  · exact .inl rfl
  · exact .inr (.inl rfl)
  · exact .inr (.inr ⟨_, rfl⟩)

theorem call_undo (h : History) :
    h.call .undo = if h.canUndo then { h with location := h.location - 1 } else h := by
  simp only [call, undo]
  split <;> rfl

theorem call_redo (h : History) :
    h.call .redo = if h.canRedo then { h with location := h.location + 1 } else h := by
  simp only [call, redo]
  split <;> rfl

theorem closed_of_mem_sealed {steps : List Step} (h : ∀ g ∈ steps.dropLast, g.closed = true) :
    ∀ g ∈ sealed steps, g.closed = true := by
  intro g hg
  rcases List.mem_append.1 hg with hg | hg
  · exact h g hg
  · obtain ⟨last, -, rfl⟩ := Option.map_eq_some_iff.1 (Option.mem_toList.1 hg)
    rfl

/-- A closed step has nothing more to lose. -/
theorem sealed_of_closed {steps : List Step} (h : ∀ g ∈ steps, g.closed = true) :
    sealed steps = steps := by
  rcases List.eq_nil_or_concat steps with rfl | ⟨before, last, rfl⟩
  · rfl
  · rw [List.concat_eq_append] at h ⊢
    have hlast : last.closed = true := h last (by simp)
    rw [sealed_concat, ← hlast]

theorem length_sealed (steps : List Step) : (sealed steps).length = steps.length := by
  have h := congrArg List.length (map_actions_sealed steps)
  rwa [List.length_map, List.length_map] at h

theorem nonempty_sealed {steps : List Step} (h : ∀ g ∈ steps, g.actions ≠ []) :
    ∀ g ∈ sealed steps, g.actions ≠ [] := by
  intro g hg
  have hmem : g.actions ∈ steps.map Step.actions := by
    rw [← map_actions_sealed]
    exact List.mem_map_of_mem hg
  obtain ⟨g', hg', heq⟩ := List.mem_map.1 hmem
  rw [← heq]
  exact h g' hg'

/-! What keeps a history ordered -/

theorem ordered_empty : empty.Ordered :=
  ⟨Nat.le_refl 0, fun s hs => by rw [← Option.some.inj hs]; exact Nat.zero_le _,
    fun g hg => (List.not_mem_nil hg).elim, fun g hg => (List.not_mem_nil hg).elim⟩

/-- Only the steps, and the places among them, matter. -/
theorem Ordered.of_eq (ho : h.Ordered) (hsteps : h'.steps = h.steps)
    (hlocation : h'.location ≤ h.steps.length)
    (hsaved : ∀ s, h'.saved = some s → s ≤ h.steps.length) : h'.Ordered :=
  ⟨by rwa [hsteps], by rwa [hsteps], by rw [hsteps]; exact ho.nonempty,
    by rw [hsteps]; exact ho.closed⟩

theorem Ordered.pending (ho : h.Ordered) (p : Option Step) : { h with pending := p }.Ordered :=
  ho.of_eq rfl ho.location_le ho.saved_le

theorem Ordered.forgetUndone (ho : h.Ordered) : h.forgetUndone.Ordered := by
  unfold History.forgetUndone
  split
  · exact ho
  · have hlength : (h.steps.take h.location).length = h.location :=
      List.length_take_of_le ho.location_le
    refine ⟨Nat.le_of_eq hlength.symm, fun s hs => ?_, fun g hg => ?_, fun g hg => ?_⟩
    · obtain ⟨-, hle⟩ := Option.filter_eq_some_iff.1 hs
      rw [hlength]
      exact of_decide_eq_true hle
    · exact ho.nonempty g (List.mem_of_mem_take hg)
    · rw [List.dropLast_eq_take, List.take_take] at hg
      refine ho.closed g ?_
      rw [List.dropLast_eq_take]
      exact (List.take_subset_take_left _ (by rw [hlength]; omega)) hg

theorem Ordered.dropNewest (ho : h.Ordered) : h.dropNewest.Ordered := by
  have hlength : h.dropNewest.steps.length = h.steps.length - 1 := List.length_dropLast
  refine ⟨?_, fun s hs => ?_, fun g hg => ?_, fun g hg => ?_⟩
  · rw [hlength]
    exact Nat.min_le_right _ _
  · rw [hlength]
    simp only [History.dropNewest] at hs
    split at hs
    · cases hs
    · rename_i hne
      have hle := ho.saved_le s hs
      have : s ≠ h.steps.length := fun heq => hne (heq ▸ hs)
      omega
  · exact ho.nonempty g (List.dropLast_subset _ hg)
  · exact ho.closed g (List.dropLast_subset _ hg)

theorem Ordered.dropOldest (ho : h.Ordered) : h.dropOldest.Ordered := by
  have hlength : h.dropOldest.steps.length = h.steps.length - 1 := List.length_tail
  refine ⟨?_, fun s hs => ?_, fun g hg => ?_, fun g hg => ?_⟩
  · rw [hlength]
    exact Nat.sub_le_sub_right ho.location_le 1
  · rw [hlength]
    obtain ⟨s', hs', hdec⟩ := Option.bind_eq_some_iff.1 hs
    split at hdec
    · cases hdec
    · obtain rfl := Option.some.inj hdec
      exact Nat.sub_le_sub_right (ho.saved_le s' hs') 1
  · exact ho.nonempty g (List.mem_of_mem_tail hg)
  · refine ho.closed g ?_
    have hg' : g ∈ h.steps.tail.dropLast := hg
    rw [← List.tail_dropLast] at hg'
    exact List.mem_of_mem_tail hg'

theorem Ordered.dropOne (ho : h.Ordered) : h.dropOne.Ordered := by
  unfold History.dropOne
  split
  · exact ho.dropNewest
  · exact ho.dropOldest

theorem Ordered.repeat (ho : h.Ordered) (n : Nat) : (n.repeat History.dropOne h).Ordered := by
  induction n with
  | zero => exact ho
  | succ n ih => exact ih.dropOne

theorem ordered_clear (h : History) : h.clear.Ordered := by
  refine ⟨Nat.le_refl 0, fun s hs => ?_, fun g hg => (List.not_mem_nil hg).elim,
    fun g hg => (List.not_mem_nil hg).elim⟩
  obtain ⟨_, -, rfl⟩ := Option.map_eq_some_iff.1 hs
  exact Nat.zero_le _

theorem Ordered.trim (ho : h.Ordered) : h.trim.Ordered := by
  unfold History.trim
  split
  · exact ho
  · split
    · exact ordered_clear h
    · exact ho.repeat _

theorem length_extended (h : History) (step : Step) :
    (h.extended step).steps.length = h.steps.length + 1 := by
  rw [extended, List.length_append, length_sealed]
  rfl

/-- A step behind steps that are all closed. -/
theorem Ordered.extended (ho : h.Ordered) (hstep : step.actions ≠ []) :
    (h.extended step).Ordered := by
  refine ⟨Nat.le_of_eq (h.length_extended step).symm, fun s hs => ?_, fun g hg => ?_,
    fun g hg => ?_⟩
  · rw [length_extended]
    exact Nat.le_succ_of_le (ho.saved_le s hs)
  · rcases List.mem_append.1 hg with hg | hg
    · exact nonempty_sealed ho.nonempty g hg
    · rwa [List.mem_singleton.1 hg]
  · rw [History.extended, List.dropLast_concat] at hg
    exact closed_of_mem_sealed ho.closed g hg

/-- The newest step takes in another one. -/
theorem Ordered.merge (ho : h.Ordered) {before : List Step} {last both : Step}
    (hlast : h.steps = before ++ [last]) (hboth : both.actions ≠ []) :
    { h with steps := before ++ [both] }.Ordered := by
  have hlength : (before ++ [both]).length = h.steps.length := by
    rw [hlast, List.length_append, List.length_append]
    rfl
  have hmem (g : Step) (hg : g ∈ before) : g ∈ h.steps := by
    rw [hlast]
    exact List.mem_append_left _ hg
  refine ⟨?_, fun s hs => ?_, fun g hg => ?_, fun g hg => ?_⟩
  · rw [hlength]
    exact ho.location_le
  · rw [hlength]
    exact ho.saved_le s hs
  · rcases List.mem_append.1 hg with hg | hg
    · exact ho.nonempty g (hmem g hg)
    · rwa [List.mem_singleton.1 hg]
  · rw [List.dropLast_concat] at hg
    refine ho.closed g ?_
    rwa [hlast, List.dropLast_concat]

/-- Undo takes the newest step that is done. -/
theorem Ordered.undo_eq (ho : h.Ordered) (hcan : h.canUndo = true) :
    h.inUserAction = false ∧ 0 < h.location ∧
      ∃ step, h.steps[h.location - 1]? = some step ∧ h.undo = .ok
        (step.actions.reverse.map Action.undo ++ h.flagCommand h.location (h.location - 1) ++
          (step.actions.head?.map Action.selectionBefore).toList,
        { h with location := h.location - 1 }) := by
  obtain ⟨hclosed, hlocation⟩ : h.inUserAction = false ∧ 0 < h.location := by
    simpa [canUndo] using hcan
  have hle := ho.location_le
  have hlt : h.location - 1 < h.steps.length := by omega
  have hstep := List.getElem?_eq_getElem hlt
  refine ⟨hclosed, hlocation, _, hstep, ?_⟩
  rw [undo, if_pos hcan, hstep]

/-- Redo takes the oldest step that was taken back. -/
theorem redo_eq (hcan : h.canRedo = true) :
    h.inUserAction = false ∧
      ∃ step, h.steps[h.location]? = some step ∧ h.redo = .ok
        (step.actions.map Action.redo ++ h.flagCommand h.location (h.location + 1) ++
          (step.actions.head?.map Action.selectionAfter).toList,
        { h with location := h.location + 1 }) := by
  obtain ⟨hclosed, hlt⟩ : h.inUserAction = false ∧ h.location < h.steps.length := by
    simpa [canRedo] using hcan
  have hstep := List.getElem?_eq_getElem hlt
  refine ⟨hclosed, _, hstep, ?_⟩
  rw [redo, if_pos hcan, hstep]

theorem canUndo_of_ok {r : List ReplayCommand × History} (hundo : h.undo = .ok r) :
    h.canUndo = true := by
  rw [undo] at hundo
  split at hundo
  · assumption
  · cases hundo

theorem canRedo_of_ok {r : List ReplayCommand × History} (hredo : h.redo = .ok r) :
    h.canRedo = true := by
  rw [redo] at hredo
  split at hredo
  · assumption
  · cases hredo

/-- Two steps that become one are single edits, and neither of them is closed. -/
theorem merge?_eq_some {last both : Step} (hm : last.merge? step = some both) :
    last.closed = false ∧ both.actions ≠ [] := by
  unfold Step.merge? at hm
  split at hm
  · split at hm
    · cases hm
    · rename_i hopen
      obtain ⟨c, -, rfl⟩ := Option.map_eq_some_iff.1 hm
      rw [Bool.or_eq_true, not_or, Bool.not_eq_true] at hopen
      exact ⟨hopen.1, List.cons_ne_nil c []⟩
  · cases hm

theorem Ordered.closePending (ho : h.Ordered) : h.closePending.Ordered := by
  rcases h.closePending_cases with
    ⟨-, heq⟩ | ⟨step, -, hstep, g, rfl, ⟨before, last, both, hlast, hm, -, heq⟩ | heq⟩
  · rw [heq]
    exact ho.pending none
  · rw [heq]
    exact (ho.pending none).forgetUndone.merge hlast (merge?_eq_some hm).2
  · rw [heq]
    exact ((ho.pending none).forgetUndone.extended hstep).trim

/-! What keeps a history to its limit -/

theorem length_repeat (h : History) (n : Nat) :
    (n.repeat dropOne h).steps.length = h.steps.length - n := by
  induction n with
  | zero => rfl
  | succ n ih =>
    change (n.repeat dropOne h).dropOne.steps.length = h.steps.length - (n + 1)
    rw [length_dropOne, ih]
    omega

theorem length_trim_le {l : Int} (hl : h.limit = l) (hlimit : 0 ≤ l) :
    (h.trim.steps.length : Int) ≤ l := by
  subst hl
  unfold trim
  rw [if_neg (by omega)]
  split
  · rename_i hzero
    rw [hzero]
    exact Int.le_refl 0
  · rw [length_repeat]
    omega

theorem length_merge {before : List Step} {last both : Step} (hlast : h.steps = before ++ [last]) :
    (before ++ [both]).length = h.steps.length := by
  rw [hlast, List.length_append, List.length_append]
  rfl

theorem length_forgetUndone_le (h : History) :
    h.forgetUndone.steps.length ≤ h.steps.length := by
  unfold forgetUndone
  split
  · exact Nat.le_refl _
  · exact List.length_take_le' _ _

theorem length_closePending_le (hw : 0 ≤ h.limit → (h.steps.length : Int) ≤ h.limit)
    (hlimit : 0 ≤ h.limit) : (h.closePending.steps.length : Int) ≤ h.limit := by
  rcases h.closePending_cases with
    ⟨-, heq⟩ | ⟨step, -, -, g, rfl, ⟨before, last, both, hlast, -, -, heq⟩ | heq⟩
  · rw [heq]
    exact hw hlimit
  · rw [heq]
    have hle := length_forgetUndone_le { h with pending := none }
    have := hw hlimit
    simp only [length_merge hlast]
    dsimp only at hle
    omega
  · have hmode := sameMode_forgetUndone { h with pending := none }
    rw [heq]
    exact length_trim_le hmode.limit hlimit

theorem kept_empty : empty.Kept :=
  ⟨ordered_empty, Int.le_refl _, fun hlimit => absurd hlimit (by decide), fun hp => (hp rfl).elim⟩

theorem Kept.settled (hk : h.Kept) (hclosed : h.inUserAction = false) : h.pending = none := by
  by_cases hp : h.pending = none
  · exact hp
  · rw [(hk.gathers hp).1] at hclosed
    cases hclosed

theorem Kept.clear (hk : h.Kept) : h.clear.Kept :=
  ⟨ordered_clear h, hk.limit_ge, fun hlimit => hlimit, fun hp => (hp rfl).elim⟩

theorem Kept.closePending (hk : h.Kept) : h.closePending.Kept := by
  have hmode := h.sameMode_closePending
  refine ⟨hk.toOrdered.closePending, ?_, fun hlimit => ?_, fun hp => ?_⟩
  · rw [hmode.limit]
    exact hk.limit_ge
  · rw [hmode.limit] at hlimit ⊢
    exact length_closePending_le hk.within hlimit
  · exact (hp h.pending_closePending).elim

theorem Kept.finishUserAction (hk : h.Kept) : h.finishUserAction.Kept := by
  have hc := hk.closePending
  refine ⟨hc.toOrdered.of_eq rfl hc.location_le hc.saved_le, hc.limit_ge, hc.within, fun hp => ?_⟩
  exact (hp h.pending_closePending).elim

theorem Kept.record (hk : h.Kept) (edit? : Option Action) : (h.recordEdit edit?).Kept := by
  unfold History.recordEdit
  split
  · rename_i hrec
    have hlimit : h.limit ≠ 0 := (isRecording_iff.1 hrec).2
    cases edit? with
    | none => exact hk
    | some a =>
      rw [Option.elim_some, History.push]
      dsimp only
      split
      · rename_i hopen
        exact ⟨hk.toOrdered.pending _, hk.limit_ge, hk.within, fun _ => ⟨hopen, hlimit⟩⟩
      · have hmode := sameMode_closePending
          { h with pending := some ((h.pending.getD ⟨[], false⟩).push a) }
        refine ⟨(hk.toOrdered.pending _).closePending, ?_, fun hl => ?_, fun hp => ?_⟩
        · rw [hmode.limit]
          exact hk.limit_ge
        · rw [hmode.limit] at hl ⊢
          exact length_closePending_le hk.within hl
        · exact (hp (pending_closePending _)).elim
  · exact hk

theorem Kept.push (hk : h.Kept) (hrec : h.isRecording = true) (a : Action) : (h.push a).Kept := by
  have hkept := hk.record (some a)
  rwa [recordEdit, if_pos hrec, Option.elim_some] at hkept

theorem Kept.modifiedChanged (hk : h.Kept) (b : Bool) : (h.modifiedChanged b).Kept := by
  have saved {h : History} (hk : h.Kept) : { h with saved := some h.location }.Kept := by
    refine ⟨hk.toOrdered.of_eq rfl hk.location_le fun s hs => ?_, hk.limit_ge, hk.within,
      hk.gathers⟩
    obtain rfl := Option.some.inj hs
    exact hk.location_le
  unfold History.modifiedChanged
  split
  · exact hk
  · split
    · split
      · have forgotten : { h with saved := none }.Ordered :=
          hk.toOrdered.of_eq rfl hk.location_le fun s hs => by cases hs
        exact ⟨forgotten, hk.limit_ge, hk.within, hk.gathers⟩
      · exact hk
    · dsimp only
      split
      · exact saved hk.closePending
      · exact saved hk

theorem Kept.setLimit (hk : h.Kept) (l : Int) : (h.setLimit l).Kept := by
  unfold History.setLimit
  dsimp only
  split
  · exact hk
  · have hmode := sameMode_trim { h with limit := max l (-1) }
    have hlimit : { h with limit := max l (-1) }.trim.limit = max l (-1) := hmode.limit
    have limited : { h with limit := max l (-1) }.Ordered :=
      hk.toOrdered.of_eq rfl hk.location_le hk.saved_le
    refine ⟨limited.trim, ?_, fun hl => ?_, fun hp => ?_⟩
    · rw [hlimit]
      exact Int.le_max_right l (-1)
    · rw [hlimit] at hl ⊢
      exact length_trim_le rfl hl
    · rw [hmode.inUserAction, hlimit]
      by_cases hzero : max l (-1) = 0
      · -- the limit 0 forgets the gathered edits as well
        rw [trim, if_neg (by dsimp only; omega), if_pos hzero] at hp
        exact (hp rfl).elim
      · refine ⟨(hk.gathers ?_).1, hzero⟩
        intro hnone
        exact hp (pending_trim _ hnone)

theorem Kept.call (hk : h.Kept) (c : HistoryCall) : (h.call c).Kept := by
  have moved (n : Nat) (hn : n ≤ h.steps.length) : { h with location := n }.Kept :=
    ⟨hk.toOrdered.of_eq rfl hn hk.saved_le, hk.limit_ge, hk.within, hk.gathers⟩
  have suspended (n : Nat) : { h with suspensions := n }.Kept :=
    ⟨hk.toOrdered.of_eq rfl hk.location_le hk.saved_le, hk.limit_ge, hk.within, hk.gathers⟩
  cases c with
  | recordInsert o t =>
    rw [History.call, recordInsert_eq_record]
    exact hk.record _
  | recordInsertAt o t selection =>
    rw [History.call, recordInsertAt, recordInsert_eq_record]
    exact hk.record _
  | recordKeyDelete start stop t forward =>
    rw [History.call, recordKeyDelete, recordDelete_eq_record]
    exact hk.record _
  | recordDeleteAt start stop t selection =>
    simp only [History.call, recordDeleteAt, recordDelete_eq_record]
    exact hk.record _
  | beginUserAction =>
    exact ⟨hk.toOrdered.of_eq rfl hk.location_le hk.saved_le, hk.limit_ge, hk.within,
      fun hp => ⟨rfl, (hk.gathers hp).2⟩⟩
  | endUserAction =>
    rw [call_endUserAction]
    split
    · exact hk.finishUserAction
    · exact hk
  | beginNotUndoable => exact suspended _
  | endNotUndoable =>
    rcases h.call_endNotUndoable with heq | heq | ⟨n, heq⟩
    · rwa [heq]
    · rw [heq]
      exact (suspended 0).clear
    · rw [heq]
      exact suspended n
  | modifiedChanged b => exact hk.modifiedChanged b
  | setLimit l => exact hk.setLimit l
  | clear => exact hk.clear
  | undo =>
    rw [call_undo]
    split
    · exact moved _ (Nat.le_trans (Nat.sub_le _ 1) hk.location_le)
    · exact hk
  | redo =>
    rw [call_redo]
    split
    · rename_i hcan
      rw [canRedo, Bool.and_eq_true, decide_eq_true_eq] at hcan
      exact moved _ hcan.2
    · exact hk

theorem kept_callAll (cs : List HistoryCall) : (empty.callAll cs).Kept := by
  have run {h : History} (hk : h.Kept) : (h.callAll cs).Kept := by
    induction cs generalizing h with
    | nil => exact hk
    | cons c cs ih => exact ih (hk.call c)
  exact run kept_empty

end History
end CodeBuffer
