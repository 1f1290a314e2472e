import CodeBuffer.Proofs.History.Calls

namespace CodeBuffer
namespace History

/-- A history whose steps carry numbers. A step keeps its number for life, also when it takes in
another one, and no number is given twice. -/
structure Numbered where
  history : History
  numbers : List Nat
  next : Nat

namespace Numbered

def start : Numbered := ⟨empty, [], 0⟩

def forgetUndone (n : Numbered) : Numbered :=
  { n with
    history := n.history.forgetUndone
    numbers := n.numbers.take n.history.location }

def dropOne (n : Numbered) : Numbered :=
  { n with
    history := n.history.dropOne
    numbers := if n.history.location < n.history.steps.length then n.numbers.dropLast
      else n.numbers.tail }

def clear (n : Numbered) : Numbered := { n with history := n.history.clear, numbers := [] }

def trim (n : Numbered) : Numbered :=
  if n.history.limit < 0 then n
  else if n.history.limit = 0 then n.clear
  else (n.history.steps.length - n.history.limit.toNat).repeat dropOne n

/-- A change that leaves every step in its place. -/
def change (n : Numbered) (f : History → History) : Numbered := { n with history := f n.history }

/-- The gathered edits go into the newest step, or they get a number of their own. -/
def closePending (n : Numbered) : Numbered :=
  match n.history.pending with
  | none => n
  | some step =>
    let n := n.change ({ · with pending := none })
    if step.actions = [] then n
    else
      let n := n.forgetUndone
      match n.history.mergeLast? step with
      | some h => { n with history := h }
      | none => trim ⟨n.history.extended step, n.numbers ++ [n.next], n.next + 1⟩

def record (n : Numbered) (edit? : Option Action) : Numbered :=
  match edit? with
  | none => n
  | some a =>
    if n.history.isRecording then
      let m := n.change fun h => { h with pending := some ((h.pending.getD ⟨[], false⟩).push a) }
      if n.history.inUserAction then m else m.closePending
    else n

def call (n : Numbered) (c : HistoryCall) : Numbered :=
  match c with
  | .recordInsert _ _ => n.record c.edit?
  | .recordInsertAt _ _ _ => n.record c.edit?
  | .recordKeyDelete _ _ _ _ => n.record c.edit?
  | .recordDeleteAt _ _ _ _ => n.record c.edit?
  | .endUserAction =>
    if n.history.inUserAction then n.closePending.change ({ · with inUserAction := false }) else n
  | .endNotUndoable =>
    if n.history.suspensions = 1 then (n.change ({ · with suspensions := 0 })).clear
    else n.change (·.call .endNotUndoable)
  | .modifiedChanged modified =>
    if n.history.isRecording ∧ modified = false ∧ n.history.inUserAction then
      n.closePending.change fun h => { h with saved := some h.location }
    else n.change (·.call c)
  | .setLimit limit =>
    if n.history.limit = max limit (-1) then n
    else (n.change ({ · with limit := max limit (-1) })).trim
  | .clear => n.clear
  | c => n.change (·.call c)

def callAll (n : Numbered) (cs : List HistoryCall) : Numbered := cs.foldl call n

/-- Every step has a number of its own, and the number was given before. -/
structure Proper (n : Numbered) : Prop extends n.history.Ordered where
  length : n.numbers.length = n.history.steps.length
  nodup : n.numbers.Nodup
  below : ∀ k ∈ n.numbers, k < n.next

/-- Under some numbers closed steps are filed. Whatever still has such a number is the step on
file. -/
structure Files (archive : Nat → Step → Prop) (n : Numbered) : Prop extends n.Proper where
  archived : ∀ k g, archive k g → g.closed = true ∧ k < n.next
  same : ∀ k g (i : Nat), archive k g → n.numbers[i]? = some k → n.history.steps[i]? = some g

variable {n : Numbered} {archive : Nat → Step → Prop} {g step : Step}

/-! The numbers do not influence the history -/

theorem history_repeat (n : Numbered) (m : Nat) :
    (m.repeat dropOne n).history = m.repeat History.dropOne n.history := by
  induction m with
  | zero => rfl
  | succ m ih => exact congrArg History.dropOne ih

theorem history_trim (n : Numbered) : n.trim.history = n.history.trim := by
  unfold trim History.trim
  split
  · rfl
  · split
    · rfl
    · exact n.history_repeat _

theorem history_closePending (n : Numbered) :
    n.closePending.history = n.history.closePending := by
  unfold closePending
  cases hp : n.history.pending with
  | none => rw [History.closePending, hp]
  | some step =>
    by_cases hne : step.actions = []
    · simp only [if_pos hne]
      rw [closePending_of_none _ (by simp [hasPending, hp, hne])]
      rfl
    · simp only [if_neg hne]
      rw [closePending_of_some _ hp hne rfl]
      dsimp only [change, forgetUndone]
      cases { n.history with pending := none }.forgetUndone.mergeLast? step with
      | some h => rfl
      | none => exact history_trim _

theorem history_record (n : Numbered) (edit? : Option Action) :
    (n.record edit?).history = n.history.recordEdit edit? := by
  unfold record History.recordEdit
  cases edit? with
  | none => exact (ite_self n.history).symm
  | some a =>
    by_cases hrec : n.history.isRecording = true
    · simp only [if_pos hrec, Option.elim_some, History.push, change]
      by_cases hopen : n.history.inUserAction = true
      · simp only [if_pos hopen]
      · simp only [if_neg hopen]
        exact history_closePending _
    · simp only [if_neg hrec]

theorem history_call (n : Numbered) (c : HistoryCall) :
    (n.call c).history = n.history.call c := by
  cases c with
  | recordInsert o t => exact (n.history_record _).trans (recordInsert_eq_record _ o t _).symm
  | recordInsertAt o t selection =>
    exact (n.history_record _).trans (recordInsert_eq_record _ o t _).symm
  | recordKeyDelete start stop t forward =>
    exact (n.history_record _).trans (recordDelete_eq_record _ start stop t _).symm
  | recordDeleteAt start stop t selection =>
    exact (n.history_record _).trans (recordDelete_eq_record _ start stop t _).symm
  | endUserAction =>
    rw [call_endUserAction]
    simp only [call]
    split
    · exact congrArg (fun h => { h with inUserAction := false }) n.history_closePending
    · rfl
  | endNotUndoable =>
    simp only [call]
    split
    · rename_i hone
      simp only [History.call, endNotUndoable, hone]
      rfl
    · rfl
  | modifiedChanged modified =>
    simp only [call]
    split
    · rename_i hcloses
      obtain ⟨hrec, rfl, hopen⟩ := hcloses
      simp only [History.call, modifiedChanged, hrec, hopen, ← history_closePending]
      rfl
    · rfl
  | setLimit limit =>
    simp only [call, History.call, setLimit]
    split
    · rfl
    · exact history_trim _
  | _ => rfl

theorem history_callAll (n : Numbered) (cs : List HistoryCall) :
    (n.callAll cs).history = n.history.callAll cs := by
  induction cs generalizing n with
  | nil => rfl
  | cons c cs ih =>
    have hrest := ih (n.call c)
    rwa [history_call] at hrest

/-! What keeps the steps on file -/

theorem steps_forgetUndone (h : History) : h.forgetUndone.steps = h.steps.take h.location := by
  unfold History.forgetUndone
  split
  · rename_i hle
    exact (List.take_of_length_le hle).symm
  · rfl

/-- A change of everything but the steps. -/
theorem Files.change (hf : n.Files archive) {f : History → History}
    (ho : (f n.history).Ordered) (hsteps : (f n.history).steps = n.history.steps) :
    (n.change f).Files archive :=
  ⟨⟨ho, hf.length.trans (congrArg List.length hsteps.symm), hf.nodup, hf.below⟩, hf.archived,
    fun k g i hk hi => by rw [Numbered.change, hsteps]; exact hf.same k g i hk hi⟩

theorem Files.forgetUndone (hf : n.Files archive) : n.forgetUndone.Files archive := by
  refine ⟨⟨hf.toOrdered.forgetUndone, ?_, ?_, fun k hk => ?_⟩, hf.archived, fun k g i hk hi => ?_⟩
  · rw [Numbered.forgetUndone, steps_forgetUndone, List.length_take, List.length_take, hf.length]
  · exact hf.nodup.sublist (List.take_sublist _ _)
  · exact hf.below k (List.mem_of_mem_take hk)
  · rw [Numbered.forgetUndone, steps_forgetUndone, List.getElem?_take]
    simp only [Numbered.forgetUndone, List.getElem?_take] at hi
    split at hi
    · rename_i hlt
      rw [if_pos hlt]
      exact hf.same k g i hk hi
    · cases hi

theorem Files.dropOne (hf : n.Files archive) : n.dropOne.Files archive := by
  have ho := hf.toOrdered.dropOne
  by_cases hundone : n.history.location < n.history.steps.length
  · have hdrop : n.dropOne = ⟨n.history.dropOne, n.numbers.dropLast, n.next⟩ := by
      rw [Numbered.dropOne, if_pos hundone]
    have hsteps : n.history.dropOne.steps = n.history.steps.dropLast := by
      rw [History.dropOne, if_pos hundone]
      rfl
    rw [hdrop]
    refine ⟨⟨ho, ?_, ?_, fun k hk => ?_⟩, hf.archived, fun k g i hk hi => ?_⟩
    · rw [hsteps, List.length_dropLast, List.length_dropLast, hf.length]
    · exact hf.nodup.sublist (List.dropLast_sublist _)
    · exact hf.below k (List.dropLast_subset _ hk)
    · rw [List.getElem?_dropLast, hf.length] at hi
      rw [hsteps, List.getElem?_dropLast]
      split at hi
      · rename_i hlt
        rw [if_pos hlt]
        exact hf.same k g i hk hi
      · cases hi
  · have hdrop : n.dropOne = ⟨n.history.dropOne, n.numbers.tail, n.next⟩ := by
      rw [Numbered.dropOne, if_neg hundone]
    have hsteps : n.history.dropOne.steps = n.history.steps.tail := by
      rw [History.dropOne, if_neg hundone]
      rfl
    rw [hdrop]
    refine ⟨⟨ho, ?_, ?_, fun k hk => ?_⟩, hf.archived, fun k g i hk hi => ?_⟩
    · rw [hsteps, List.length_tail, List.length_tail, hf.length]
    · exact hf.nodup.sublist (List.tail_sublist _)
    · exact hf.below k (List.mem_of_mem_tail hk)
    · rw [List.getElem?_tail] at hi
      rw [hsteps, List.getElem?_tail]
      exact hf.same k g (i + 1) hk hi

theorem Files.clear (hf : n.Files archive) : n.clear.Files archive :=
  ⟨⟨ordered_clear n.history, rfl, List.nodup_nil, fun k hk => (List.not_mem_nil hk).elim⟩,
    hf.archived, fun k g i _ hi => by cases hi⟩

theorem Files.trim (hf : n.Files archive) : n.trim.Files archive := by
  have dropped (m : Nat) : (m.repeat Numbered.dropOne n).Files archive := by
    induction m with
    | zero => exact hf
    | succ m ih => exact ih.dropOne
  unfold Numbered.trim
  split
  · exact hf
  · split
    · exact hf.clear
    · exact dropped _

/-- Only a step that is not closed takes in another one. -/
theorem Files.merge (hf : n.Files archive) {h : History}
    (hm : n.history.mergeLast? step = some h) : ({ n with history := h }).Files archive := by
  obtain ⟨before, last, both, hlast, hboth, -, rfl⟩ := mergeLast?_eq_some hm
  obtain ⟨hopen, hne⟩ := merge?_eq_some hboth
  refine ⟨⟨hf.toOrdered.merge hlast hne, ?_, hf.nodup, hf.below⟩, hf.archived,
    fun k g i hk hi => ?_⟩
  · exact hf.length.trans (length_merge hlast).symm
  · have hsame := hf.same k g i hk hi
    rw [hlast] at hsame
    by_cases hlt : i < before.length
    · rw [List.getElem?_append_left hlt] at hsame
      exact (List.getElem?_append_left hlt).trans hsame
    · have hi' := (List.getElem?_eq_some_iff.1 hsame).1
      rw [List.length_append, List.length_singleton] at hi'
      rw [show i = before.length by omega, List.getElem?_concat_length] at hsame
      obtain rfl := Option.some.inj hsame
      rw [(hf.archived k last hk).1] at hopen
      cases hopen

theorem getElem?_sealed {steps : List Step} {i : Nat} (hi : steps[i]? = some g)
    (hg : g.closed = true) : (sealed steps)[i]? = some g := by
  rcases List.eq_nil_or_concat steps with rfl | ⟨before, last, rfl⟩
  · cases hi
  · rw [List.concat_eq_append] at hi ⊢
    rw [sealed_concat]
    by_cases hlt : i < before.length
    · rw [List.getElem?_append_left hlt] at hi ⊢
      exact hi
    · have hi' := (List.getElem?_eq_some_iff.1 hi).1
      rw [List.length_append, List.length_singleton] at hi'
      obtain rfl : i = before.length := by omega
      rw [List.getElem?_concat_length] at hi ⊢
      obtain rfl := Option.some.inj hi
      rw [← hg]

/-- A new step gets a number that nothing is filed under. -/
theorem Files.extend (hf : n.Files archive) (hstep : step.actions ≠ []) :
    Files archive ⟨n.history.extended step, n.numbers ++ [n.next], n.next + 1⟩ := by
  refine ⟨⟨hf.toOrdered.extended hstep, ?_, ?_, fun k hk => ?_⟩, fun k g hk => ?_,
    fun k g i hk hi => ?_⟩
  · rw [length_extended, List.length_append, hf.length]
    rfl
  · refine List.nodup_append.2 ⟨hf.nodup, List.pairwise_singleton _ _, fun k hk k' hk' heq => ?_⟩
    have := hf.below k hk
    rw [heq, List.mem_singleton.1 hk'] at this
    omega
  · rcases List.mem_append.1 hk with hk | hk
    · exact Nat.lt_succ_of_lt (hf.below k hk)
    · rw [List.mem_singleton.1 hk]
      exact Nat.lt_succ_self _
  · exact ⟨(hf.archived k g hk).1, Nat.lt_succ_of_lt (hf.archived k g hk).2⟩
  · by_cases hlt : i < n.numbers.length
    · rw [List.getElem?_append_left hlt] at hi
      have hsealed := getElem?_sealed (hf.same k g i hk hi) (hf.archived k g hk).1
      rw [extended, List.getElem?_append_left (by rw [length_sealed, ← hf.length]; exact hlt)]
      exact hsealed
    · have hi' := (List.getElem?_eq_some_iff.1 hi).1
      rw [List.length_append, List.length_singleton] at hi'
      rw [show i = n.numbers.length by omega, List.getElem?_concat_length] at hi
      have := (hf.archived k g hk).2
      rw [← Option.some.inj hi] at this
      omega

theorem Files.closePending (hf : n.Files archive) : n.closePending.Files archive := by
  have hbare : (n.change ({ · with pending := none })).Files archive :=
    hf.change (hf.toOrdered.pending none) rfl
  unfold Numbered.closePending
  split
  · exact hf
  · rename_i step hstep
    dsimp only
    split
    · exact hbare
    · rename_i hne
      split
      · rename_i h hm
        exact hbare.forgetUndone.merge hm
      · exact (hbare.forgetUndone.extend hne).trim

theorem Files.record (hf : n.Files archive) (edit? : Option Action) :
    (n.record edit?).Files archive := by
  cases edit? with
  | none => exact hf
  | some a =>
    unfold Numbered.record
    dsimp only
    split
    · have hpending : (n.change fun h =>
          { h with pending := some ((h.pending.getD ⟨[], false⟩).push a) }).Files archive :=
        hf.change (hf.toOrdered.pending _) rfl
      split
      · exact hpending
      · exact hpending.closePending
    · exact hf

/-- The calls that leave the steps alone. -/
theorem Files.change_call (hf : n.Files archive) (hk : n.history.Kept) (c : HistoryCall)
    (hsteps : (n.history.call c).steps = n.history.steps) :
    (n.change (·.call c)).Files archive :=
  hf.change (hk.call c).toOrdered hsteps

theorem Files.call (hf : n.Files archive) (hk : n.history.Kept) (c : HistoryCall) :
    (n.call c).Files archive := by
  cases c with
  | recordInsert o t => exact hf.record _
  | recordInsertAt o t selection => exact hf.record _
  | recordKeyDelete start stop t forward => exact hf.record _
  | recordDeleteAt start stop t selection => exact hf.record _
  | beginUserAction => exact hf.change_call hk _ rfl
  | endUserAction =>
    simp only [Numbered.call]
    split
    · have hc := hf.closePending
      exact hc.change (hc.toOrdered.of_eq rfl hc.location_le hc.saved_le) rfl
    · exact hf
  | beginNotUndoable => exact hf.change_call hk _ rfl
  | endNotUndoable =>
    simp only [Numbered.call]
    split
    · refine Files.clear (hf.change ?_ rfl)
      exact hf.toOrdered.of_eq rfl hf.location_le hf.saved_le
    · rename_i hinner
      refine hf.change_call hk _ ?_
      simp only [History.call, endNotUndoable]
      split
      · rfl
      · rename_i hone
        exact absurd hone hinner
      · rfl
  | modifiedChanged modified =>
    simp only [Numbered.call]
    split
    · have hc := hf.closePending
      refine hc.change (hc.toOrdered.of_eq rfl hc.location_le fun s hs => ?_) rfl
      rw [← Option.some.inj hs]
      exact hc.location_le
    · rename_i hopen
      refine hf.change_call hk _ ?_
      simp only [History.call, modifiedChanged]
      split
      · rfl
      · split
        · split <;> rfl
        · rename_i hrec hmodified
          rw [if_neg]
          intro hin
          exact hopen ⟨by simpa using hrec, by simpa using hmodified, hin⟩
  | setLimit limit =>
    simp only [Numbered.call]
    split
    · exact hf
    · refine Files.trim (hf.change ?_ rfl)
      exact hf.toOrdered.of_eq rfl hf.location_le hf.saved_le
  | clear => exact hf.clear
  | undo =>
    refine hf.change_call hk _ ?_
    rw [call_undo]
    split <;> rfl
  | redo =>
    refine hf.change_call hk _ ?_
    rw [call_redo]
    split <;> rfl

theorem Files.callAll (hf : n.Files archive) (hk : n.history.Kept) (cs : List HistoryCall) :
    (n.callAll cs).Files archive := by
  induction cs generalizing n with
  | nil => exact hf
  | cons c cs ih =>
    have hk' : (n.call c).history.Kept := by
      rw [history_call]
      exact hk.call c
    exact ih (hf.call hk c) hk'

theorem proper_callAll (cs : List HistoryCall) : (start.callAll cs).Proper := by
  have hstart : start.Files fun _ _ => False :=
    ⟨⟨ordered_empty, rfl, List.nodup_nil, fun k hk => (List.not_mem_nil hk).elim⟩,
      fun _ _ hk => hk.elim, fun _ _ _ hk => hk.elim⟩
  exact (hstart.callAll kept_empty cs).toProper

/-- The closed steps of a history, under their numbers. -/
theorem Proper.files (hp : n.Proper) :
    n.Files fun k g =>
      ∃ i : Nat, n.numbers[i]? = some k ∧ n.history.steps[i]? = some g ∧ g.closed = true := by
  refine ⟨hp, ?_, ?_⟩
  · rintro k g ⟨i, hk, -, hg⟩
    exact ⟨hg, hp.below k (List.mem_of_getElem? hk)⟩
  · rintro k g j ⟨i, hk, hi, -⟩ hj
    rwa [← (List.getElem?_inj (List.getElem?_eq_some_iff.1 hk).1 hp.nodup).1 (hk.trans hj.symm)]

/-- Whatever is done to a history, a step that another one has followed stays as it is until it is
dropped. -/
theorem callAll_steps (hp : n.Proper) (hk : n.history.Kept) {i j k : Nat}
    (hi : i + 1 < n.history.steps.length) (hki : n.numbers[i]? = some k) (more : List HistoryCall)
    (hkj : (n.callAll more).numbers[j]? = some k) :
    (n.callAll more).history.steps[j]? = n.history.steps[i]? := by
  have hi' : i < n.history.steps.length := Nat.lt_of_succ_lt hi
  have hg := List.getElem?_eq_getElem hi'
  have hclosed : n.history.steps[i].closed = true := by
    refine hp.closed _ ?_
    refine List.mem_of_getElem? (i := i) ?_
    rw [List.getElem?_dropLast, if_pos (by omega), hg]
  rw [hg]
  exact (hp.files.callAll hk more).same k _ j ⟨i, hki, hg, hclosed⟩ hkj

end Numbered

variable {h : History} {step : Step} {a : Action}

/-- How many steps the limit cannot hold once there is one more. -/
def excess (h : History) : Nat :=
  if h.limit < 0 then 0 else h.location + 1 - h.limit.toNat

/-- With no step to redo, the oldest ones go. -/
theorem steps_repeat (hend : h.steps.length ≤ h.location) (n : Nat) :
    (n.repeat dropOne h).steps = h.steps.drop n ∧
      (n.repeat dropOne h).steps.length ≤ (n.repeat dropOne h).location := by
  induction n with
  | zero => exact ⟨List.drop_zero.symm, hend⟩
  | succ n ih =>
    obtain ⟨hsteps, hle⟩ := ih
    have hdrop : ((n + 1).repeat dropOne h) = (n.repeat dropOne h).dropOldest := by
      change (n.repeat dropOne h).dropOne = _
      rw [dropOne, if_neg (Nat.not_lt.2 hle)]
    rw [hdrop]
    refine ⟨?_, ?_⟩
    · rw [dropOldest, hsteps, List.tail_drop]
    · rw [dropOldest, List.length_tail]
      exact Nat.sub_le_sub_right hle 1

theorem steps_trim (hend : h.steps.length = h.location) :
    h.trim.steps = h.steps.drop (if h.limit < 0 then 0 else h.location - h.limit.toNat) := by
  unfold trim
  split
  · exact List.drop_zero.symm
  · split
    · rename_i hzero
      rw [hzero, Int.toNat_zero, Nat.sub_zero, ← hend, List.drop_length]
      rfl
    · rw [(steps_repeat (Nat.le_of_eq hend) _).1, hend]

/-- With steps to redo, the gathered edits become a step of their own behind those that are
done. -/
theorem Ordered.steps_closePending (ho : h.Ordered) (hundone : 0 < h.redoDepth)
    (hp : h.pending = some step) (hne : step.actions ≠ []) :
    h.closePending.steps = (h.steps.take h.location ++ [step]).drop h.excess := by
  have hlt : h.location < h.steps.length := Nat.lt_of_sub_pos hundone
  have hdone : { h with pending := none }.forgetUndone.steps = h.steps.take h.location :=
    Numbered.steps_forgetUndone _
  have hclosed : ∀ g ∈ h.steps.take h.location, g.closed = true := by
    intro g hg
    refine ho.closed g ?_
    rw [List.dropLast_eq_take]
    exact List.take_subset_take_left _ (by omega) hg
  have hlength : (h.steps.take h.location).length = h.location :=
    List.length_take_of_le ho.location_le
  rcases h.closePending_cases with
    ⟨hnone, -⟩ | ⟨step', hstep', -, g, rfl, ⟨before, last, both, hlast, hm, -, -⟩ | heq⟩
  · simp [hasPending, hp, hne] at hnone
  · -- the newest step that is done was followed by another one, and so it is closed
    have hmem : last ∈ h.steps.take h.location := by
      rw [← hdone, hlast]
      exact List.mem_append_right _ (List.mem_singleton_self _)
    have hopen := (merge?_eq_some hm).1
    rw [hclosed last hmem] at hopen
    cases hopen
  · obtain rfl : step = step' := Option.some.inj (hp.symm.trans hstep')
    have hlimit : { h with pending := none }.forgetUndone.limit = h.limit :=
      (sameMode_forgetUndone { h with pending := none }).limit
    rw [heq, steps_trim (length_extended _ _)]
    simp only [History.extended, hdone, hlimit, sealed_of_closed hclosed, hlength, excess]

/-- However a history is used, its places lie among its steps, no step is empty, the limit is kept,
and there is a step to take back, or to do again, whenever that is on offer. A step that another one
has followed is never changed again: neither by anything that is done later, nor by the first edit
after an undo, which becomes a step of its own. -/
theorem steps_callAll (cs : List HistoryCall) :
    let h := empty.callAll cs
    let n := Numbered.start.callAll cs
    h.location ≤ h.steps.length ∧
      (∀ s, h.saved = some s → s ≤ h.steps.length) ∧
      (∀ g ∈ h.steps, g.actions ≠ []) ∧
      (0 < h.limit → (h.steps.length : Int) ≤ h.limit) ∧ (h.limit = 0 → h.steps = []) ∧
      h.undoDepth + h.redoDepth = h.steps.length ∧
      (h.canUndo = true → ∃ g, h.steps[h.location - 1]? = some g) ∧
      (h.canRedo = true → ∃ g, h.steps[h.location]? = some g) ∧
      (n.history = h ∧ n.numbers.length = h.steps.length ∧ n.numbers.Nodup) ∧
      (∀ more (i j k : Nat), i + 1 < h.steps.length → n.numbers[i]? = some k →
        (n.callAll more).numbers[j]? = some k →
          (h.callAll more).steps[j]? = h.steps[i]?) ∧
      (∀ c a, 0 < h.redoDepth → h.isRecording = true → h.inUserAction = false →
        c.edit? = some a →
          (h.call c).steps =
            (h.steps.take h.location ++ [Step.push ⟨[], false⟩ a]).drop h.excess) ∧
      ∀ c g, 0 < h.redoDepth →
        c = .endUserAction ∨ c = .modifiedChanged false ∧ h.isRecording = true →
          h.pending = some g → g.actions ≠ [] →
            (h.call c).steps = (h.steps.take h.location ++ [g]).drop h.excess := by
  intro h n
  have hk : h.Kept := kept_callAll cs
  have hn : n.history = h := Numbered.history_callAll _ cs
  have hp : n.Proper := Numbered.proper_callAll cs
  refine ⟨hk.location_le, hk.saved_le, hk.nonempty, fun hpos => hk.within (Int.le_of_lt hpos),
    fun hzero => ?_, ?_, fun hcan => ?_, fun hcan => ?_, ⟨hn, ?_, hp.nodup⟩,
    fun more i j k hi hki hkj => ?_, fun c a hundone hrec hclosed hc => ?_,
    fun c g hundone hc hg hne => ?_⟩
  · have hle := hk.within (Int.le_of_eq hzero.symm)
    rw [hzero] at hle
    exact List.eq_nil_of_length_eq_zero (by omega)
  · have := hk.location_le
    rw [undoDepth, redoDepth]
    omega
  · rw [canUndo, Bool.and_eq_true, decide_eq_true_eq] at hcan
    have := hk.location_le
    exact ⟨_, List.getElem?_eq_getElem (by omega)⟩
  · rw [canRedo, Bool.and_eq_true, decide_eq_true_eq] at hcan
    exact ⟨_, List.getElem?_eq_getElem hcan.2⟩
  · rw [hp.length, hn]
  · have hsame := Numbered.callAll_steps hp (hn ▸ hk) (hn ▸ hi) hki more hkj
    rwa [Numbered.history_callAll, hn] at hsame
  · have hnone : h.pending = none := by
      refine Classical.byContradiction fun hsome => ?_
      rw [(hk.gathers hsome).1] at hclosed
      cases hclosed
    rw [call_of_edit hc, recordEdit, if_pos hrec, Option.elim_some, push, hnone, Option.getD_none]
    dsimp only
    rw [if_neg (by rw [hclosed]; exact Bool.false_ne_true)]
    exact (hk.toOrdered.pending _).steps_closePending hundone rfl (by simp [Step.push])
  · rw [← hk.toOrdered.steps_closePending hundone hg hne]
    have hopen : h.inUserAction = true := (hk.gathers (by rw [hg]; exact Option.some_ne_none g)).1
    rcases hc with rfl | ⟨rfl, hrec⟩
    · rw [call_endUserAction, if_pos hopen]
      rfl
    · simp only [call, modifiedChanged, hrec, hopen]
      rfl

end History
end CodeBuffer
