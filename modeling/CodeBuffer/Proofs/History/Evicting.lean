import CodeBuffer.Proofs.History.Calls

namespace CodeBuffer
namespace History

/-- The history without its first `early` steps and its last `late` ones. -/
def window (h : History) (early late : Nat) : History :=
  { h with
    steps := (h.steps.take (h.steps.length - late)).drop early
    location := h.location - early
    saved := h.saved.bind fun s =>
      if early ≤ s ∧ s ≤ h.steps.length - late then some (s - early) else none }

/-- How many steps are too many for a limit. -/
def surplus (h : History) (n : Nat) : Nat := h.steps.length - n

/-- How many of them can be redone. -/
def lateSurplus (h : History) (n : Nat) : Nat := min (h.surplus n) (h.steps.length - h.location)

/-- How many of them cannot. -/
def earlySurplus (h : History) (n : Nat) : Nat := h.surplus n - h.lateSurplus n

/-- One history keeps of another what a limit leaves. The surplus goes from the end of the steps as
far as it can be redone and from their beginning as far as it cannot. The location moves along, and
so does the saved one unless its text is gone. -/
structure Shrinks (n : Nat) (h h' : History) : Prop where
  steps : ∃ early late : List Step, early.length = h.earlySurplus n ∧
    late.length = h.lateSurplus n ∧ h.steps = early ++ h'.steps ++ late
  location : h'.location + h.earlySurplus n = h.location
  saved : h'.saved = h.saved.bind fun s =>
    if h.earlySurplus n ≤ s ∧ s ≤ h.steps.length - h.lateSurplus n then
      some (s - h.earlySurplus n)
    else none
  pending : h'.pending = h.pending

/-- The history with one step more, before any goes for it. -/
def pushed (h : History) (step : Step) : History :=
  { h with pending := none }.forgetUndone.extended step

/-- The step does not become part of the newest one that is done. -/
def StandsAlone (h : History) (step : Step) : Prop :=
  { h with pending := none }.forgetUndone.mergeLast? step = none

variable {h h' : History} {n early late : Nat} {step : Step}

theorem window_zero (ho : h.Ordered) : h.window 0 0 = h := by
  have hsaved : (h.saved.bind fun s =>
      if 0 ≤ s ∧ s ≤ h.steps.length - 0 then some (s - 0) else none) = h.saved := by
    cases hs : h.saved with
    | none => rfl
    | some s => exact if_pos ⟨Nat.zero_le s, ho.saved_le s hs⟩
  rw [window, hsaved, Nat.sub_zero, List.take_length]
  rfl

theorem length_window (h : History) (early late : Nat) :
    (h.window early late).steps.length = h.steps.length - late - early := by
  rw [window, List.length_drop, List.length_take_of_le (Nat.sub_le _ _)]

theorem saved_window_eq_some_iff {s : Nat} : (h.window early late).saved = some s ↔
    h.saved = some (s + early) ∧ s + early ≤ h.steps.length - late := by
  rw [window, Option.bind_eq_some_iff]
  constructor
  · rintro ⟨s', hs', hin⟩
    split at hin
    · rename_i hle
      obtain rfl := Option.some.inj hin
      rw [Nat.sub_add_cancel hle.1]
      exact ⟨hs', hle.2⟩
    · cases hin
  · rintro ⟨hs, hle⟩
    exact ⟨_, hs, by rw [if_pos ⟨Nat.le_add_left early s, hle⟩, Nat.add_sub_cancel]⟩

/-- While there are steps to redo, the last one goes. -/
theorem dropOne_window_late (hundone : h.location < h.steps.length - late) :
    (h.window 0 late).dropOne = h.window 0 (late + 1) := by
  have hlength : (h.window 0 late).steps.length = h.steps.length - late := h.length_window 0 late
  have hlocation : (h.window 0 late).location = h.location := rfl
  have hmin : min h.location (h.steps.length - late - 1) = h.location := Nat.min_eq_left (by omega)
  have hsteps : (h.window 0 late).steps.dropLast = (h.window 0 (late + 1)).steps := by
    simp only [window, List.drop_zero]
    rw [List.dropLast_eq_take, List.take_take, List.length_take_of_le (Nat.sub_le _ _),
      Nat.min_eq_left (Nat.sub_le _ _), Nat.sub_sub]
  have hsaved : (if (h.window 0 late).saved = some (h.steps.length - late) then none
      else (h.window 0 late).saved) = (h.window 0 (late + 1)).saved := by
    refine Option.ext fun s => ?_
    split
    · rename_i hlast
      have hlast' := (saved_window_eq_some_iff.1 hlast).1
      rw [saved_window_eq_some_iff]
      refine ⟨fun hs => (by cases hs), fun hs => ?_⟩
      rw [hlast'] at hs
      have := Option.some.inj hs.1
      omega
    · rename_i hlast
      rw [saved_window_eq_some_iff] at hlast
      rw [saved_window_eq_some_iff, saved_window_eq_some_iff]
      refine and_congr_right fun hs => ?_
      have hne : s ≠ h.steps.length - late := fun heq => hlast ⟨heq ▸ hs, Nat.le_refl _⟩
      omega
  rw [dropOne, hlength, hlocation, if_pos hundone, dropNewest, hlength, hlocation, hmin, hsteps,
    hsaved]
  rfl

/-- When there are none left, the first one goes. -/
theorem dropOne_window_early (hend : h.steps.length - late = h.location) :
    (h.window early late).dropOne = h.window (early + 1) late := by
  have hlength := h.length_window early late
  have hlocation : (h.window early late).location = h.location - early := rfl
  have hsteps : (h.window early late).steps.tail = (h.window (early + 1) late).steps :=
    List.tail_drop
  have hsaved : ((h.window early late).saved.bind fun s => if s = 0 then none else some (s - 1)) =
      (h.window (early + 1) late).saved := by
    refine Option.ext fun s => ?_
    rw [saved_window_eq_some_iff, Option.bind_eq_some_iff]
    constructor
    · rintro ⟨s', hs', hdec⟩
      split at hdec
      · cases hdec
      · obtain rfl := Option.some.inj hdec
        obtain ⟨hs, hle⟩ := saved_window_eq_some_iff.1 hs'
        have heq : s' + early = s' - 1 + (early + 1) := by omega
        rw [← heq]
        exact ⟨hs, hle⟩
    · rintro ⟨hs, hle⟩
      have heq : s + (early + 1) = s + 1 + early := by omega
      rw [heq] at hs hle
      exact ⟨s + 1, saved_window_eq_some_iff.2 ⟨hs, hle⟩, rfl⟩
  rw [dropOne, hlength, hlocation, if_neg (by omega), dropOldest, hsteps, hsaved, hlocation,
    Nat.sub_sub]
  rfl

/-- So many steps go, those that can be redone before the others. -/
theorem repeat_dropOne_eq_window (ho : h.Ordered) (n : Nat) :
    n.repeat dropOne h =
      h.window (n - (h.steps.length - h.location)) (min n (h.steps.length - h.location)) := by
  have hle := ho.location_le
  obtain ⟨r, hr⟩ : ∃ r, r = h.steps.length - h.location := ⟨_, rfl⟩
  rw [← hr]
  induction n with
  | zero => rw [Nat.zero_sub, Nat.zero_min, window_zero ho, Nat.repeat]
  | succ n ih =>
    rw [Nat.repeat, ih]
    by_cases hundone : n < r
    · have hnone : n - r = 0 ∧ n + 1 - r = 0 := by omega
      have hall : min n r = n ∧ min (n + 1) r = n + 1 := by omega
      rw [hnone.1, hnone.2, hall.1, hall.2]
      exact dropOne_window_late (by omega)
    · have hone : n + 1 - r = n - r + 1 := by omega
      have hall : min n r = r ∧ min (n + 1) r = r := by omega
      rw [hone, hall.1, hall.2]
      exact dropOne_window_early (by omega)

theorem shrinks_window (ho : h.Ordered) :
    h.Shrinks n (h.window (h.earlySurplus n) (h.lateSurplus n)) := by
  have hle := ho.location_le
  have hearly : h.earlySurplus n ≤ h.location := by
    unfold earlySurplus lateSurplus surplus
    omega
  refine ⟨⟨h.steps.take (h.earlySurplus n), h.steps.drop (h.steps.length - h.lateSurplus n),
    List.length_take_of_le (by omega), ?_, ?_⟩, Nat.sub_add_cancel hearly, rfl, rfl⟩
  · have hlate : h.lateSurplus n ≤ h.steps.length := by
      unfold lateSurplus surplus
      omega
    rw [List.length_drop, Nat.sub_sub_self hlate]
  · have hfits : h.earlySurplus n ≤ h.steps.length - h.lateSurplus n := by
      unfold earlySurplus lateSurplus surplus
      omega
    have hfirst : h.steps.take (h.earlySurplus n) =
        (h.steps.take (h.steps.length - h.lateSurplus n)).take (h.earlySurplus n) := by
      rw [List.take_take, Nat.min_eq_left hfits]
    rw [hfirst, window, List.take_append_drop, List.take_append_drop]

/-- To enforce a limit is to take the window that it leaves. -/
theorem shrinks_trim (ho : h.Ordered) (hn : 0 < n) (hlimit : h.limit = n) :
    h.Shrinks n h.trim := by
  have hwindow : h.trim = h.window (h.earlySurplus n) (h.lateSurplus n) := by
    have hcount : h.limit.toNat = n := by rw [hlimit, Int.toNat_natCast]
    rw [trim, if_neg (by omega), if_neg (by omega), hcount, repeat_dropOne_eq_window ho]
    unfold earlySurplus lateSurplus surplus
    congr 1
    omega
  rw [hwindow]
  exact shrinks_window ho

/-- A limit that is kept takes nothing away. -/
theorem shrinks_self (ho : h.Ordered) (hle : h.steps.length ≤ n) : h.Shrinks n h := by
  have hnone : h.surplus n = 0 := Nat.sub_eq_zero_of_le hle
  have hall := shrinks_window (n := n) ho
  rw [earlySurplus, lateSurplus, hnone, Nat.zero_min, Nat.sub_zero, window_zero ho] at hall
  exact hall

theorem Kept.shrinks_setLimit (hk : h.Kept) (hn : 0 < n) : h.Shrinks n (h.setLimit n) := by
  have hmax : max (n : Int) (-1) = n := by omega
  unfold History.setLimit
  simp only [hmax]
  split
  · rename_i hsame
    have hle := hk.within (by omega)
    exact shrinks_self hk.toOrdered (by omega)
  · have ho : { h with limit := (n : Int) }.Ordered :=
      hk.toOrdered.of_eq rfl hk.location_le hk.saved_le
    have hs := shrinks_trim ho hn rfl
    exact ⟨hs.steps, hs.location, hs.saved, hs.pending⟩

/-- A step that is made costs the steps that it leaves no room for. -/
theorem Ordered.shrinks_closePending (ho : h.Ordered) (hn : 0 < n) (hlimit : h.limit = n)
    (hp : h.pending = some step) (hne : step.actions ≠ []) (halone : h.StandsAlone step) :
    (h.pushed step).Shrinks n h.closePending := by
  have hclosed : h.closePending = (h.pushed step).trim := by
    rw [h.closePending_of_some hp hne rfl, halone]
    rfl
  have hmode := sameMode_forgetUndone { h with pending := none }
  rw [hclosed]
  exact shrinks_trim ((ho.pending none).forgetUndone.extended hne) hn (hmode.limit.trans hlimit)

/-- Where gathered edits evict, the step that they become takes the place of the oldest one. -/
theorem Kept.tail_of_evicts (hk : h.Kept) (hn : 0 < n) (hlimit : h.limit = n) (he : h.Evicts) :
    ∃ step, h.pending = some step ∧ h.closePending.steps = (h.pushed step).steps.tail := by
  obtain ⟨⟨-, hfull⟩, hpending, hmerge⟩ := he
  obtain ⟨step, hp, hne⟩ : ∃ step, h.pending = some step ∧ step.actions ≠ [] := by
    simpa [hasPending, Option.any_eq_true] using hpending
  rw [hp, Option.bind_some] at hmerge
  have hlocation : h.location = n := by
    have hle := hk.location_le
    have hwithin := hk.within (by omega)
    omega
  have hdone : { h with pending := none }.forgetUndone.steps.length = n := by
    rw [← hlocation]
    exact (length_forgetUndone (h := { h with pending := none }) hk.location_le).trans
      (location_forgetUndone _)
  have hlength : (h.pushed step).steps.length = n + 1 := by
    rw [pushed, extended, List.length_append, length_sealed, hdone, List.length_singleton]
  have hplace : (h.pushed step).location = n + 1 := congrArg (· + 1) hdone
  obtain ⟨early, late, hearly, hlate, hsteps⟩ :=
    (hk.toOrdered.shrinks_closePending hn hlimit hp hne hmerge).steps
  rw [earlySurplus, lateSurplus, surplus, hlength, hplace] at hearly
  rw [lateSurplus, surplus, hlength, hplace] at hlate
  obtain ⟨oldest, rfl⟩ := List.length_eq_one_iff.1 (show early.length = 1 by omega)
  obtain rfl := List.eq_nil_of_length_eq_zero (show late.length = 0 by omega)
  exact ⟨step, hp, by rw [hsteps, List.append_nil]; rfl⟩

/-- However a history was used before, a limit that is set, and likewise a step that is made by an
edit, by the end of a user action or by a save within one, leaves the window of the steps that the
limit has room for: what is too much goes, and first what could be redone, from the newest on. -/
theorem callAll_shrinks (cs : List HistoryCall) {n : Nat} (hn : 0 < n) :
    let h := empty.callAll cs
    h.Shrinks n (h.call (.setLimit n)) ∧
      (h.limit = n →
        (∀ c a, c.edit? = some a → h.isRecording = true → h.inUserAction = false →
          h.StandsAlone (Step.push ⟨[], false⟩ a) →
            (h.pushed (Step.push ⟨[], false⟩ a)).Shrinks n (h.call c)) ∧
        ∀ step, h.pending = some step → step.actions ≠ [] → h.StandsAlone step →
          (h.pushed step).Shrinks n (h.call .endUserAction) ∧
            (h.isRecording = true → ∃ g, (h.pushed step).Shrinks n g ∧
              h.call (.modifiedChanged false) = { g with saved := some g.location })) := by
  intro h
  have hk : h.Kept := kept_callAll cs
  refine ⟨hk.shrinks_setLimit hn, fun hlimit => ⟨fun c a hc hrec hclosed halone => ?_,
    fun step hp hne halone => ?_⟩⟩
  · have hnone := hk.settled hclosed
    rw [call_of_edit hc, recordEdit, if_pos hrec, Option.elim_some, push, hnone, Option.getD_none]
    dsimp only
    rw [if_neg (by rw [hclosed]; exact Bool.false_ne_true)]
    have ho := hk.toOrdered.pending (some (Step.push ⟨[], false⟩ a))
    exact ho.shrinks_closePending hn hlimit rfl (by simp [Step.push]) halone
  · have hsome : h.pending ≠ none := by rw [hp]; exact Option.some_ne_none step
    have hopen := (hk.gathers hsome).1
    have hdone := hk.toOrdered.shrinks_closePending hn hlimit hp hne halone
    refine ⟨?_, fun hrec => ⟨_, hdone, ?_⟩⟩
    · rw [call_endUserAction, if_pos hopen]
      exact ⟨hdone.steps, hdone.location, hdone.saved, hdone.pending⟩
    · simp only [call, modifiedChanged, hrec, hopen]
      rfl

/-- Four lines, of which two are saved and one is taken back. -/
def fourLines : List HistoryCall :=
  [.recordInsert 0 ['\n'], .recordInsert 1 ['\n'], .modifiedChanged false,
    .recordInsert 2 ['\n'], .recordInsert 3 ['\n'], .undo]

theorem callAll_shrinks_fourLines :
    let h := empty.callAll fourLines
    let g := h.call (.setLimit 2)
    (h.undoDepth = 3 ∧ h.redoDepth = 1 ∧ h.saved = some 2) ∧
      (g.undoDepth = 2 ∧ g.redoDepth = 0 ∧ g.saved = some 1) ∧ h.Shrinks 2 g ∧
        (g.pushed ⟨[⟨.insertion, 3, 4, ['\n'], none⟩], true⟩).Shrinks 2
          (g.call (.recordInsert 3 ['\n'])) := by
  refine ⟨by decide, by decide, (callAll_shrinks fourLines (by decide)).1, ?_⟩
  have hlimited := (callAll_shrinks (fourLines ++ [.setLimit 2]) (n := 2) (by decide)).2 rfl
  exact hlimited.1 (.recordInsert 3 ['\n']) ⟨.insertion, 3, 4, ['\n'], none⟩ (by decide) rfl rfl
    (by unfold StandsAlone; decide)

end History
end CodeBuffer
