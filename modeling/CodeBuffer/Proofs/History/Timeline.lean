import CodeBuffer.Proofs.History.Leading

namespace CodeBuffer
namespace History

/-- The edits of the open user action. -/
def gathered (h : History) : List Action := h.pending.elim [] Step.actions

/-- Nothing was done since the text was saved. -/
def AtSaved (h : History) : Prop := h.saved = some h.location

theorem hasPending_eq (h : History) : h.hasPending = !h.gathered.isEmpty := by
  rw [hasPending, gathered]
  cases h.pending <;> rfl

theorem isRecording_iff {h : History} :
    h.isRecording = true ↔ h.suspensions = 0 ∧ h.limit ≠ 0 := by
  simp [isRecording]

/-- The same limit, and the same user actions and suspensions are open. -/
structure SameMode (h h' : History) : Prop where
  inUserAction : h'.inUserAction = h.inUserAction
  suspensions : h'.suspensions = h.suspensions
  limit : h'.limit = h.limit

namespace SameMode

variable {h h' h'' : History}

theorem refl (h : History) : h.SameMode h := ⟨rfl, rfl, rfl⟩

theorem trans (hs : h.SameMode h') (hs' : h'.SameMode h'') : h.SameMode h'' :=
  ⟨hs'.inUserAction.trans hs.inUserAction, hs'.suspensions.trans hs.suspensions,
    hs'.limit.trans hs.limit⟩

theorem isRecording_eq (hs : h.SameMode h') : h'.isRecording = h.isRecording := by
  rw [isRecording, hs.suspensions, hs.limit, isRecording]

end SameMode

section
variable (h : History)

theorem sameMode_forgetUndone : h.SameMode h.forgetUndone := by
  unfold forgetUndone
  split <;> exact ⟨rfl, rfl, rfl⟩

theorem pending_forgetUndone : h.forgetUndone.pending = h.pending := by
  unfold forgetUndone
  split <;> rfl

theorem sameMode_dropOne : h.SameMode h.dropOne := by
  unfold dropOne
  split <;> exact ⟨rfl, rfl, rfl⟩

theorem pending_dropOne : h.dropOne.pending = h.pending := by
  unfold dropOne
  split <;> rfl

theorem sameMode_repeat (n : Nat) : h.SameMode (n.repeat dropOne h) := by
  induction n with
  | zero => exact .refl h
  | succ n ih => exact ih.trans (sameMode_dropOne _)

theorem pending_repeat (n : Nat) : (n.repeat dropOne h).pending = h.pending := by
  induction n with
  | zero => rfl
  | succ n ih => exact (pending_dropOne _).trans ih

theorem sameMode_trim : h.SameMode h.trim := by
  unfold trim
  split
  · exact .refl h
  · split
    · exact ⟨rfl, rfl, rfl⟩
    · exact h.sameMode_repeat _

theorem pending_trim (hp : h.pending = none) : h.trim.pending = none := by
  unfold trim
  split
  · exact hp
  · split
    · rfl
    · exact (h.pending_repeat _).trans hp

/-- The steps once the newest of them is closed. -/
def sealed (steps : List Step) : List Step :=
  steps.dropLast ++ (steps.getLast?.map ({ · with closed := true })).toList

theorem sealed_concat (before : List Step) (last : Step) :
    sealed (before ++ [last]) = before ++ [{ last with closed := true }] := by
  rw [sealed, List.dropLast_concat, List.getLast?_concat, Option.map_some, Option.toList_some]

theorem map_actions_sealed (steps : List Step) :
    (sealed steps).map Step.actions = steps.map Step.actions := by
  rcases List.eq_nil_or_concat steps with rfl | ⟨before, last, rfl⟩
  · rfl
  · rw [List.concat_eq_append, sealed_concat]
    simp only [List.map_append, List.map_cons, List.map_nil]

/-- The history once a step is part of the newest one, if it may be. -/
def mergeLast? (h : History) (step : Step) : Option History :=
  if h.saved = some h.steps.length then none
  else h.steps.getLast?.bind fun last =>
    (last.merge? step).map fun both => { h with steps := h.steps.dropLast ++ [both] }

/-- The history once a step stands behind the others. -/
def extended (h : History) (step : Step) : History :=
  { h with steps := sealed h.steps ++ [step], location := h.steps.length + 1 }

theorem mergeLast?_eq_some {h h' : History} {step : Step} (hm : h.mergeLast? step = some h') :
    ∃ before last both, h.steps = before ++ [last] ∧ last.merge? step = some both ∧
      h.saved ≠ some h.steps.length ∧ h' = { h with steps := before ++ [both] } := by
  unfold mergeLast? at hm
  split at hm
  · cases hm
  · rename_i hsaved
    obtain ⟨last, hlast, hm⟩ := Option.bind_eq_some_iff.1 hm
    obtain ⟨both, hboth, rfl⟩ := Option.map_eq_some_iff.1 hm
    obtain ⟨before, hsteps⟩ := List.getLast?_eq_some_iff.1 hlast
    refine ⟨before, last, both, hsteps, hboth, hsaved, ?_⟩
    rw [hsteps, List.dropLast_concat]

theorem closePending_of_none (hp : h.hasPending = false) :
    h.closePending = { h with pending := none } := by
  unfold closePending
  cases hstep : h.pending with
  | none => simp [← hstep]
  | some step =>
    have hempty : step.actions.isEmpty = true := by simpa [hasPending, hstep] using hp
    simp only [hempty, if_true]

/-- The gathered edits go into the newest step, or they become a step of their own. -/
theorem closePending_of_some {g : History} {step : Step} (hp : h.pending = some step)
    (hne : step.actions ≠ []) (hg : g = { h with pending := none }.forgetUndone) :
    h.closePending = (g.mergeLast? step).getD (g.extended step).trim := by
  rw [closePending, hp]
  simp only [List.isEmpty_iff, hne, if_false, ← hg]
  rcases List.eq_nil_or_concat g.steps with hnil | ⟨before, last, hlast⟩
  · rw [extended, mergeLast?, hnil]
    simp [sealed]
  · rw [List.concat_eq_append] at hlast
    rw [extended, mergeLast?, hlast, List.getLast?_concat, List.dropLast_concat, sealed_concat,
      List.append_assoc]
    by_cases hsaved : g.saved = some (before ++ [last]).length
    · simp only [if_pos hsaved]
      rfl
    · simp only [if_neg hsaved, Option.bind_some]
      cases last.merge? step <;> rfl

/-- What becomes of the gathered edits: there are none, or they go into the newest step, or they
become a step of their own. -/
theorem closePending_cases :
    h.hasPending = false ∧ h.closePending = { h with pending := none } ∨
      ∃ step, h.pending = some step ∧ step.actions ≠ [] ∧
        ∃ g, g = { h with pending := none }.forgetUndone ∧
          ((∃ before last both, g.steps = before ++ [last] ∧ last.merge? step = some both ∧
              g.saved ≠ some g.steps.length ∧
                h.closePending = { g with steps := before ++ [both] }) ∨
            h.closePending = (g.extended step).trim) := by
  cases hp : h.hasPending with
  | false => exact .inl ⟨rfl, h.closePending_of_none hp⟩
  | true =>
    obtain ⟨step, hstep, hne⟩ : ∃ step, h.pending = some step ∧ step.actions ≠ [] := by
      simpa [hasPending, Option.any_eq_true] using hp
    obtain ⟨g, hg⟩ : ∃ g, g = { h with pending := none }.forgetUndone := ⟨_, rfl⟩
    refine .inr ⟨step, hstep, hne, g, hg, ?_⟩
    rw [h.closePending_of_some hstep hne hg]
    cases hm : g.mergeLast? step with
    | none => exact .inr rfl
    | some h' =>
      obtain ⟨before, last, both, hlast, hboth, hsaved, rfl⟩ := mergeLast?_eq_some hm
      exact .inl ⟨before, last, both, hlast, hboth, hsaved, rfl⟩

theorem sameMode_closePending : h.SameMode h.closePending := by
  have first : h.SameMode { h with pending := none } := ⟨rfl, rfl, rfl⟩
  replace first := first.trans (sameMode_forgetUndone _)
  rcases h.closePending_cases with
    ⟨-, heq⟩ | ⟨step, -, -, g, rfl, ⟨before, last, both, -, -, -, heq⟩ | heq⟩
  · rw [heq]
    exact ⟨rfl, rfl, rfl⟩
  · rw [heq]
    exact first.trans ⟨rfl, rfl, rfl⟩
  · rw [heq]
    refine .trans ?_ (sameMode_trim _)
    exact first.trans ⟨rfl, rfl, rfl⟩

theorem pending_closePending : h.closePending.pending = none := by
  have first : { h with pending := none }.forgetUndone.pending = none := pending_forgetUndone _
  rcases h.closePending_cases with
    ⟨-, heq⟩ | ⟨step, -, -, g, rfl, ⟨before, last, both, -, -, -, heq⟩ | heq⟩
  · rw [heq]
  · rw [heq]
    exact first
  · rw [heq]
    exact pending_trim _ first

end

/-- One step more would be beyond the limit. -/
def IsFull (h : History) : Prop := 0 ≤ h.limit ∧ h.limit ≤ (h.location : Int)

instance (h : History) : Decidable h.IsFull :=
  inferInstanceAs (Decidable (0 ≤ h.limit ∧ h.limit ≤ (h.location : Int)))

/-- The gathered edits become a step of their own, for which the oldest one has to go. -/
def Evicts (h : History) : Prop :=
  h.IsFull ∧ h.hasPending = true ∧
    h.pending.bind { h with pending := none }.forgetUndone.mergeLast? = none

instance (h : History) : Decidable h.Evicts :=
  inferInstanceAs (Decidable (h.IsFull ∧ h.hasPending = true ∧
    h.pending.bind { h with pending := none }.forgetUndone.mergeLast? = none))

/-- Whether a user action is open has nothing to do with it. -/
theorem evicts_inUserAction (h : History) (b : Bool) :
    Evicts { h with inUserAction := b } ↔ h.Evicts := by
  refine and_congr_right fun _ => and_congr_right fun _ => ?_
  dsimp only
  cases h.pending with
  | none => exact Iff.rfl
  | some step =>
    simp only [Option.bind_some, forgetUndone]
    split <;> simp only [mergeLast?] <;> split <;>
      simp only [Option.bind_eq_none_iff, Option.map_eq_none_iff]

/-- The texts between the steps of a history. The last that was saved, if it is still among them, is
where the history has it, and the first may be known. Each of the texts is a landmark. -/
structure Timeline (L : Text → Prop) (origin : Option Text) (saved : Text) (h : History)
    (texts : Nat → Text) : Prop where
  location_le : h.location ≤ h.steps.length
  leads : ∀ i as, (h.steps.map Step.actions)[i]? = some as → LeadAll as (texts i) (texts (i + 1))
  landmark : ∀ i ≤ h.steps.length, L (texts i)
  saved : ∀ i, h.saved = some i → i ≤ h.steps.length ∧ texts i = saved
  origin : ∀ t, origin = some t → texts 0 = t

/-- One history keeps to every timeline of another, perhaps less of it. -/
def Keeps (origin : Option Text) (h h' : History) : Prop :=
  ∀ {L : Text → Prop} {saved : Text} {texts : Nat → Text},
    Timeline L origin saved h texts → ∃ texts', Timeline L origin saved h' texts' ∧
      texts' h'.location = texts h.location ∧ (h'.AtSaved ↔ h.AtSaved)

variable {origin : Option Text}

theorem Keeps.refl (h : History) : Keeps origin h h := fun ht => ⟨_, ht, rfl, Iff.rfl⟩

theorem Keeps.trans {h h' h'' : History} (hk : Keeps origin h h') (hk' : Keeps origin h' h'') :
    Keeps origin h h'' := by
  intro L saved texts ht
  obtain ⟨texts', ht', hhere, hat⟩ := hk ht
  obtain ⟨texts'', ht'', hhere', hat'⟩ := hk' ht'
  exact ⟨texts'', ht'', hhere'.trans hhere, hat'.trans hat⟩

namespace Timeline

variable {L L' : Text → Prop} {origin : Option Text} {saved : Text} {h : History}
  {texts : Nat → Text}

theorem mono (ht : Timeline L origin saved h texts) (hL : ∀ t, L t → L' t) :
    Timeline L' origin saved h texts :=
  { ht with landmark := fun i hi => hL _ (ht.landmark i hi) }

/-- A history without steps. -/
theorem single {t : Text} (hL : L t) (hsteps : h.steps = []) (hlocation : h.location = 0)
    (hsaved : ∀ i, h.saved = some i → i = 0 ∧ t = saved)
    (horigin : ∀ t', origin = some t' → t = t') : Timeline L origin saved h fun _ => t := by
  refine ⟨by omega, ?_, fun i _ => hL, ?_, horigin⟩
  · intro i as hi
    rw [hsteps] at hi
    cases hi
  · intro i hi
    obtain ⟨rfl, heq⟩ := hsaved i hi
    exact ⟨Nat.zero_le _, heq⟩

theorem pending (ht : Timeline L origin saved h texts) (p : Option Step) :
    Timeline L origin saved { h with pending := p } texts :=
  ⟨ht.location_le, ht.leads, ht.landmark, ht.saved, ht.origin⟩

/-- The first steps of a history, none of which is undone. -/
theorem take (ht : Timeline L origin saved h texts) {n : Nat} (hn : h.location ≤ n)
    (hlen : n ≤ h.steps.length) {s : Option Nat}
    (hs : ∀ i, s = some i → h.saved = some i ∧ i ≤ n) :
    Timeline L origin saved { h with saved := s, steps := h.steps.take n } texts := by
  have hlength : (h.steps.take n).length = n := List.length_take_of_le hlen
  refine ⟨by rw [hlength]; exact hn, ?_, ?_, ?_, ht.origin⟩
  · intro i as hi
    rw [List.map_take, List.getElem?_take] at hi
    split at hi
    · exact ht.leads i as hi
    · cases hi
  · intro i hi
    exact ht.landmark i (by rw [hlength] at hi; omega)
  · intro i hi
    obtain ⟨hsaved, hle⟩ := hs i hi
    exact ⟨by rw [hlength]; exact hle, (ht.saved i hsaved).2⟩

end Timeline

theorem keeps_forgetUndone (h : History) : Keeps origin h h.forgetUndone := by
  intro L saved texts ht
  unfold forgetUndone
  split
  · exact ⟨texts, ht, rfl, Iff.rfl⟩
  · refine ⟨texts, ht.take (Nat.le_refl _) ht.location_le ?_, rfl, ?_⟩
    · intro i hi
      obtain ⟨hsaved, hle⟩ := Option.filter_eq_some_iff.1 hi
      exact ⟨hsaved, of_decide_eq_true hle⟩
    · rw [AtSaved, AtSaved, Option.filter_eq_some_iff]
      simp

theorem location_forgetUndone (h : History) : h.forgetUndone.location = h.location := by
  unfold forgetUndone
  split <;> rfl

theorem length_forgetUndone {h : History} (hle : h.location ≤ h.steps.length) :
    h.forgetUndone.steps.length = h.forgetUndone.location := by
  unfold forgetUndone
  split
  · omega
  · exact List.length_take_of_le hle

theorem length_dropOne (h : History) : h.dropOne.steps.length = h.steps.length - 1 := by
  unfold dropOne
  split
  · exact List.length_dropLast
  · exact List.length_tail

theorem location_dropOne {h : History} (hundone : h.location < h.steps.length) :
    h.dropOne.location = h.location := by
  rw [dropOne, if_pos hundone, dropNewest]
  have : h.location ≤ h.steps.length - 1 := by omega
  exact Nat.min_eq_left this

/-- The newest step goes, if it is undone. -/
theorem keeps_dropNewest {h : History} (hundone : h.location < h.steps.length) :
    Keeps origin h h.dropNewest := by
  intro L saved texts ht
  have hdrop : h.dropNewest = { h with
      saved := if h.saved = some h.steps.length then none else h.saved
      steps := h.steps.take (h.steps.length - 1) } := by
    rw [dropNewest, List.dropLast_eq_take, Nat.min_eq_left (by omega)]
  rw [hdrop]
  refine ⟨texts, ht.take (by omega) (Nat.sub_le _ _) ?_, rfl, ?_⟩
  · intro i hi
    split at hi
    · cases hi
    · rename_i hlast
      have hi' := (ht.saved i hi).1
      have hne : i ≠ h.steps.length := fun heq => hlast (heq ▸ hi)
      exact ⟨hi, by omega⟩
  · rw [AtSaved, AtSaved]
    simp only
    split
    · rename_i hlast
      rw [hlast]
      constructor
      · intro hnone
        cases hnone
      · intro heq
        have := Option.some.inj heq
        omega
    · exact Iff.rfl

/-- The oldest step goes, and the first text with it. -/
theorem keeps_dropOldest {h : History} (hlen : 0 < h.steps.length)
    (hend : h.location = h.steps.length) : Keeps none h h.dropOldest := by
  intro L saved texts ht
  refine ⟨fun i => texts (i + 1), ⟨?_, ?_, ?_, ?_, ?_⟩, ?_, ?_⟩
  · change h.location - 1 ≤ h.steps.tail.length
    rw [List.length_tail]
    omega
  · intro i as hi
    rw [dropOldest, List.map_tail, List.getElem?_tail] at hi
    exact ht.leads (i + 1) as hi
  · intro i hi
    rw [dropOldest, List.length_tail] at hi
    exact ht.landmark (i + 1) (by omega)
  · intro i hi
    obtain ⟨s, hs, hdec⟩ := Option.bind_eq_some_iff.1 hi
    split at hdec
    · cases hdec
    · obtain rfl := Option.some.inj hdec
      obtain ⟨hsle, htext⟩ := ht.saved s hs
      refine ⟨by rw [dropOldest, List.length_tail]; omega, ?_⟩
      rw [show s - 1 + 1 = s by omega]
      exact htext
  · intro t hnone
    cases hnone
  · change texts (h.location - 1 + 1) = texts h.location
    rw [Nat.sub_add_cancel (by omega)]
  · rw [AtSaved, AtSaved, dropOldest, hend]
    cases hs : h.saved with
    | none => simp
    | some s =>
      simp only [Option.bind_some]
      split
      · simp
        omega
      · simp
        omega

theorem keeps_dropOne {h : History} (hlen : 0 < h.steps.length)
    (hundone : origin ≠ none → h.location < h.steps.length) : Keeps origin h h.dropOne := by
  intro L saved texts ht
  unfold dropOne
  split
  · rename_i hlt
    exact keeps_dropNewest hlt ht
  · rename_i hge
    have hle := ht.location_le
    cases origin with
    | none => exact keeps_dropOldest hlen (by omega) ht
    | some t => exact absurd (hundone (Option.some_ne_none t)) hge

/-- So many steps go, and the first text only if there is none left to redo. -/
theorem keeps_repeat {h : History} {n : Nat} (hn : n ≤ h.steps.length)
    (hundone : origin ≠ none → h.location + n ≤ h.steps.length) :
    Keeps origin h (n.repeat dropOne h) ∧
      (n.repeat dropOne h).steps.length = h.steps.length - n ∧
        (h.location + n ≤ h.steps.length → (n.repeat dropOne h).location = h.location) := by
  induction n with
  | zero => exact ⟨Keeps.refl h, rfl, fun _ => rfl⟩
  | succ n ih =>
    obtain ⟨hkeeps, hlength, hlocation⟩ := ih (by omega) fun h => by
      have := hundone h
      omega
    rw [Nat.repeat]
    refine ⟨hkeeps.trans (keeps_dropOne (by omega) ?_), by rw [length_dropOne]; omega, ?_⟩
    · intro h
      have hle := hundone h
      rw [hlocation (by omega)]
      omega
    · intro hle
      have hsame := hlocation (by omega)
      rw [location_dropOne (by omega)]
      exact hsame

theorem keeps_trim {h : History} (hlimit : h.limit ≠ 0)
    (hroom : origin ≠ none → 0 ≤ h.limit → (h.location : Int) ≤ h.limit) :
    Keeps origin h h.trim := by
  intro L saved texts ht
  have hle := ht.location_le
  unfold trim
  split
  · exact Keeps.refl h ht
  · refine (keeps_repeat (Nat.sub_le _ _) ?_).1 ht
    intro horigin
    have := hroom horigin (by omega)
    omega

namespace Timeline

variable {L : Text → Prop} {origin : Option Text} {saved t : Text} {h : History}
  {texts : Nat → Text} {step : Step}

/-- A step more. -/
theorem extend (ht : Timeline L origin saved h texts) (hend : h.steps.length = h.location)
    (hstep : LeadAll step.actions (texts h.location) t) (hL : L t) {done : List Step}
    (hdone : done.map Step.actions = h.steps.map Step.actions) :
    Timeline L origin saved { h with steps := done ++ [step], location := h.steps.length + 1 }
      fun i => if i ≤ h.steps.length then texts i else t := by
  have hlength : done.length = h.steps.length := by simpa using congrArg List.length hdone
  refine ⟨by simp [hlength], ?_, ?_, ?_, ?_⟩
  · intro i as hi
    rw [List.map_append, hdone] at hi
    by_cases hlt : i < h.steps.length
    · rw [List.getElem?_append_left (by simpa using hlt)] at hi
      rw [if_pos (by omega), if_pos (by omega)]
      exact ht.leads i as hi
    · rw [List.getElem?_append_right (by simpa using hlt), List.length_map] at hi
      have hlast : i - h.steps.length = 0 := by
        have := (List.getElem?_eq_some_iff.1 hi).1
        simpa using this
      rw [hlast] at hi
      obtain rfl : i = h.steps.length := by omega
      obtain rfl : step.actions = as := by simpa using hi
      rw [if_pos (Nat.le_refl _), if_neg (by omega), hend]
      exact hstep
  · intro i hi
    split
    · rename_i hle
      exact ht.landmark i hle
    · exact hL
  · intro i hi
    obtain ⟨hle, htext⟩ := ht.saved i hi
    rw [if_pos hle]
    exact ⟨by simp [hlength]; omega, htext⟩
  · intro t' ht'
    rw [if_pos (Nat.zero_le _)]
    exact ht.origin t' ht'

/-- A step more, and the oldest one less if there are too many. -/
theorem extend_trim (ht : Timeline L origin saved h texts) (hend : h.steps.length = h.location)
    (hstep : LeadAll step.actions (texts h.location) t) (hL : L t) {done : List Step}
    (hdone : done.map Step.actions = h.steps.map Step.actions) (hlimit : h.limit ≠ 0)
    (hroom : origin ≠ none → ¬h.IsFull) {g : History}
    (hg : g = { h with steps := done ++ [step], location := h.steps.length + 1 }) :
    ∃ texts', Timeline L origin saved g.trim texts' ∧ texts' g.trim.location = t ∧
      ¬g.trim.AtSaved := by
  have hlength : g.location = h.location + 1 := by rw [hg, ← hend]
  have hlimit' : g.limit = h.limit := by rw [hg]
  have hsaved : g.saved = h.saved := by rw [hg]
  have hext := ht.extend hend hstep hL hdone
  rw [← hg] at hext
  obtain ⟨texts', ht', hhere, hat⟩ := keeps_trim (hlimit' ▸ hlimit) (fun horigin hge => by
    have hnot := hroom horigin
    rw [hlimit'] at hge
    have : ¬h.limit ≤ (h.location : Int) := fun hle => hnot ⟨hge, hle⟩
    omega) hext
  refine ⟨texts', ht', ?_, ?_⟩
  · rw [hhere, if_neg (by omega)]
  · rw [hat, AtSaved, hsaved, hlength]
    intro hsome
    have := (ht.saved _ hsome).1
    omega

/-- Another newest step, where the text before it was not the saved one. -/
theorem replaceLast (ht : Timeline L origin saved h texts) (hend : h.steps.length = h.location)
    {before : List Step} {last : Step} (hlast : h.steps = before ++ [last])
    (hsaved : h.saved ≠ some h.steps.length) (hstep : LeadAll step.actions (texts before.length) t)
    (hL : L t) :
    Timeline L origin saved { h with steps := before ++ [step] }
      fun i => if i ≤ before.length then texts i else t := by
  have hlength : h.steps.length = before.length + 1 := by rw [hlast]; simp
  refine ⟨by simp; omega, ?_, ?_, ?_, ?_⟩
  · intro i as hi
    rw [List.map_append] at hi
    by_cases hlt : i < before.length
    · rw [List.getElem?_append_left (by simpa using hlt)] at hi
      rw [if_pos (by omega), if_pos (by omega)]
      refine ht.leads i as ?_
      rw [hlast, List.map_append, List.getElem?_append_left (by simpa using hlt)]
      exact hi
    · rw [List.getElem?_append_right (by simpa using hlt), List.length_map] at hi
      have hzero : i - before.length = 0 := by
        have := (List.getElem?_eq_some_iff.1 hi).1
        simpa using this
      rw [hzero] at hi
      obtain rfl : i = before.length := by omega
      obtain rfl : step.actions = as := by simpa using hi
      rw [if_pos (Nat.le_refl _), if_neg (by omega)]
      exact hstep
  · intro i hi
    split
    · exact ht.landmark i (by omega)
    · exact hL
  · intro i hi
    obtain ⟨hle, htext⟩ := ht.saved i hi
    have hne : i ≠ h.steps.length := fun heq => hsaved (heq ▸ hi)
    rw [if_pos (by omega)]
    exact ⟨by simp; omega, htext⟩
  · intro t' ht'
    rw [if_pos (Nat.zero_le _)]
    exact ht.origin t' ht'

/-- The gathered edits become done with, whether merged or not. -/
theorem closePending (ht : Timeline L origin saved h texts)
    (hp : LeadAll h.gathered (texts h.location) t) (hL : h.hasPending = true → L t)
    (hlimit : h.limit ≠ 0) (hroom : origin ≠ none → ¬h.Evicts) :
    ∃ texts', Timeline L origin saved h.closePending texts' ∧ texts' h.closePending.location = t ∧
      (h.closePending.AtSaved ↔ h.AtSaved ∧ h.hasPending = false) := by
  rcases h.closePending_cases with ⟨hnone, heq⟩ | ⟨step, hstep, hne, g, hg, -⟩
  · rw [heq]
    have hempty : h.gathered = [] := by simpa [h.hasPending_eq] using hnone
    rw [hempty] at hp
    cases hp
    exact ⟨texts, ht.pending none, rfl, by simp [AtSaved, hnone]⟩
  · have hgathered : h.gathered = step.actions := by rw [gathered, hstep]; rfl
    have hsome : h.hasPending = true := by simpa [h.hasPending_eq, hgathered] using hne
    obtain ⟨texts', ht', hhere, -⟩ := keeps_forgetUndone _ (ht.pending none)
    have hlocation : g.steps.length = g.location := by
      rw [hg]
      exact length_forgetUndone ht.location_le
    rw [← hg] at ht' hhere
    rw [hgathered, show texts h.location = texts' g.location from hhere.symm] at hp
    rw [hsome, h.closePending_of_some hstep hne hg]
    cases hmerge : g.mergeLast? step with
    | some g' =>
      obtain ⟨before, last, both, hlast, hm, hunsaved, rfl⟩ := mergeLast?_eq_some hmerge
      have hlength : g.steps.length = before.length + 1 := by rw [hlast]; simp
      have hleads : LeadAll last.actions (texts' before.length) (texts' g.location) := by
        rw [← hlocation, hlength]
        exact ht'.leads before.length last.actions (by rw [hlast]; simp)
      rw [Option.getD_some]
      refine ⟨_, ht'.replaceLast hlocation hlast hunsaved (hleads.merge hp hm) (hL hsome), ?_, ?_⟩
      · exact if_neg (by simp only; omega)
      · simp only [AtSaved, ← hlocation]
        exact ⟨fun h => absurd h hunsaved, fun h => by cases h.2⟩
    | none =>
      have hmode := sameMode_forgetUndone { h with pending := none }
      rw [← hg] at hmode
      have hplace : g.location = h.location := by
        rw [hg]
        exact location_forgetUndone _
      have hroom' : origin ≠ none → ¬g.IsFull := by
        intro horigin hfull
        rw [IsFull, hmode.limit, hplace] at hfull
        refine hroom horigin ⟨hfull, hsome, ?_⟩
        rw [hstep, Option.bind_some, ← hg]
        exact hmerge
      obtain ⟨texts'', ht'', hhere', hunsaved⟩ := ht'.extend_trim hlocation hp (hL hsome)
        (map_actions_sealed g.steps) (by rw [hmode.limit]; exact hlimit) hroom' rfl
      rw [Option.getD_none]
      exact ⟨texts'', ht'', hhere', fun h => absurd h hunsaved, fun h => by cases h.2⟩

end Timeline

end History
end CodeBuffer
