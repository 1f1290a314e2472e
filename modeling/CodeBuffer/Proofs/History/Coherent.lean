import CodeBuffer.Proofs.History.Timeline

namespace CodeBuffer
namespace History

/-- The steps and the edits gathered since lead to the present text, of which the flag tells whether
it is the saved one. -/
def Recorded (L : Text → Prop) (origin : Option Text) (saved t : Text) (modified : Bool)
    (h : History) : Prop :=
  ∃ texts, Timeline L origin saved h texts ∧ LeadAll h.gathered (texts h.location) t ∧
    (modified = false ↔ h.AtSaved ∧ h.hasPending = false)

/-- Nothing is recorded, and no text is known to be saved but the present one. -/
structure Bare (h : History) : Prop where
  steps : h.steps = []
  location : h.location = 0
  pending : h.pending = none
  saved : ∀ i, h.saved = some i → i = 0

/-- A history in step with a text and its flag, while so many user actions are open. `saved` is the
text as it was saved last, and `origin` the first one, if nothing of the history got lost. -/
structure Coherent (L : Text → Prop) (origin : Option Text) (saved t : Text) (modified : Bool)
    (h : History) (depth : Nat) : Prop where
  open_iff : h.inUserAction = true ↔ 0 < depth
  settled : h.inUserAction = false → h.pending = none
  clean : modified = false → t = saved
  off : h.suspensions = 0 → h.limit = 0 → h.Bare
  whole : origin ≠ none → h.isRecording = true
  recorded : h.isRecording = true → Recorded L origin saved t modified h

variable {L L' : Text → Prop} {origin : Option Text} {saved t t' : Text} {m : Bool} {h : History}
  {depth : Nat} {a : Action}

theorem Recorded.mono (hr : Recorded L origin saved t m h) (hL : ∀ t, L t → L' t) :
    Recorded L' origin saved t m h := by
  obtain ⟨texts, ht, hp, hflag⟩ := hr
  exact ⟨texts, ht.mono hL, hp, hflag⟩

theorem Coherent.mono (hc : Coherent L origin saved t m h depth) (hL : ∀ t, L t → L' t) :
    Coherent L' origin saved t m h depth :=
  { hc with recorded := fun hrec => (hc.recorded hrec).mono hL }

/-- A history that records again knows only the present text. -/
theorem recorded_single (hsteps : h.steps = []) (hlocation : h.location = 0)
    (hpending : h.pending = none) (hL : L t) (hflag : m = false ↔ h.AtSaved)
    (hsaved : ∀ i, h.saved = some i → i = 0 ∧ t = saved)
    (horigin : ∀ t', origin = some t' → t = t') : Recorded L origin saved t m h := by
  have hgathered : h.gathered = [] := by rw [gathered, hpending]; rfl
  refine ⟨_, .single hL hsteps hlocation hsaved horigin, hgathered ▸ .nil t, hflag.trans ?_⟩
  rw [hasPending_eq, hgathered]
  exact ⟨fun hat => ⟨hat, rfl⟩, And.left⟩

/-! Edits -/

/-- Records an edit unless recording is off. -/
def record (h : History) (a : Action) : History := if h.isRecording then h.push a else h

/-- Takes note of an edit of a text with the flag `modified`. -/
def edited (h : History) (a : Action) (modified : Bool) : History :=
  if modified then h.record a else (h.record a).modifiedChanged true

theorem sameMode_push (h : History) (a : Action) : h.SameMode (h.push a) := by
  have first : h.SameMode { h with pending := some ((h.pending.getD ⟨[], false⟩).push a) } :=
    ⟨rfl, rfl, rfl⟩
  unfold push
  dsimp only
  split
  · exact first
  · exact first.trans (sameMode_closePending _)

theorem modifiedChanged_of_changed (hnot : ¬(h.AtSaved ∧ h.hasPending = false)) :
    h.modifiedChanged true = h := by
  unfold modifiedChanged
  split
  · rfl
  · rw [if_pos rfl, if_neg]
    simpa [AtSaved] using hnot

theorem edited_of_off (hrec : h.isRecording = false) (a : Action) (m : Bool) :
    h.edited a m = h := by
  have hrecord : h.record a = h := by rw [record, hrec]; rfl
  rw [edited, hrecord, modifiedChanged, hrec]
  simp

/-- Puts an edit to those that are gathered. -/
def gather (h : History) (a : Action) : History :=
  { h with pending := some ((h.pending.getD ⟨[], false⟩).push a) }

theorem gathered_gather (h : History) (a : Action) : (h.gather a).gathered = h.gathered ++ [a] := by
  rw [gather, gathered, gathered]
  cases h.pending <;> rfl

theorem hasPending_gather (h : History) (a : Action) : (h.gather a).hasPending = true := by
  simp [hasPending_eq, gathered_gather]

/-- Within a user action edits are gathered. -/
theorem edited_of_open (hrec : h.isRecording = true) (hopen : h.inUserAction = true) (a : Action)
    (m : Bool) : h.edited a m = h.gather a := by
  have hrecord : h.record a = h.gather a := by
    rw [record, if_pos hrec, push]
    exact if_pos hopen
  have hchanged : ¬((h.gather a).AtSaved ∧ (h.gather a).hasPending = false) := fun hsaved => by
    rw [hasPending_gather] at hsaved
    cases hsaved.2
  rw [edited, hrecord, modifiedChanged_of_changed hchanged, ite_self]

/-- An edit that is recorded leaves the saved text behind. -/
theorem Recorded.push (hr : Recorded L origin saved t m h) (hrec : h.isRecording = true)
    (ha : a.Leads t t') (hL : h.inUserAction = false → L t')
    (hroom : origin ≠ none → h.inUserAction = false → ¬(h.gather a).Evicts) :
    Recorded L origin saved t' true (h.push a) ∧
      ¬((h.push a).AtSaved ∧ (h.push a).hasPending = false) := by
  obtain ⟨texts, ht, hp, -⟩ := hr
  obtain ⟨g, hg⟩ : ∃ g, g = h.gather a := ⟨_, rfl⟩
  have hgathered : g.gathered = h.gathered ++ [a] := hg ▸ h.gathered_gather a
  have hpending : g.hasPending = true := hg ▸ h.hasPending_gather a
  have ht' : Timeline L origin saved g texts := hg ▸ ht.pending _
  have hp' : LeadAll g.gathered (texts g.location) t' := by
    rw [hgathered, hg]
    exact hp.snoc ha
  have hpush : h.push a = if h.inUserAction then g else g.closePending := by rw [hg]; rfl
  cases hopen : h.inUserAction with
  | true =>
    rw [hpush, if_pos hopen, hpending]
    exact ⟨⟨texts, ht', hp', by simp [hpending]⟩, by simp⟩
  | false =>
    have hlimit : g.limit ≠ 0 := by
      rw [hg]
      exact (isRecording_iff.1 hrec).2
    have hroom' : origin ≠ none → ¬g.Evicts := fun horigin => hg ▸ hroom horigin hopen
    obtain ⟨texts', ht'', hhere, hat⟩ := ht'.closePending hp' (fun _ => hL hopen) hlimit hroom'
    have hunsaved : ¬g.closePending.AtSaved := fun hsaved => by
      have := (hat.1 hsaved).2
      rw [hpending] at this
      cases this
    have hnone : g.closePending.gathered = [] := by rw [gathered, pending_closePending]; rfl
    rw [hpush, hopen, if_neg Bool.false_ne_true]
    refine ⟨⟨texts', ht'', hnone ▸ hhere ▸ .nil _, ?_⟩, fun h => hunsaved h.1⟩
    exact ⟨fun h => (by cases h), fun h => absurd h.1 hunsaved⟩

theorem Coherent.edited (hc : Coherent L origin saved t m h depth) (ha : a.Leads t t')
    (hL : depth = 0 → L t') (hroom : origin ≠ none → depth = 0 → ¬(h.gather a).Evicts) :
    Coherent L origin saved t' true (h.edited a m) depth := by
  cases hrec : h.isRecording with
  | false =>
    rw [edited_of_off hrec]
    exact { hc with
      clean := fun h => by cases h
      recorded := fun hon => by rw [hrec] at hon; cases hon }
  | true =>
    have hclosed : h.inUserAction = false → depth = 0 := fun hopen => by
      by_cases hd : 0 < depth
      · rw [hc.open_iff.2 hd] at hopen
        cases hopen
      · omega
    obtain ⟨hpushed, hchanged⟩ := (hc.recorded hrec).push hrec ha
      (fun hopen => hL (hclosed hopen)) fun horigin hopen => hroom horigin (hclosed hopen)
    have hedited : h.edited a m = h.push a := by
      rw [History.edited, record, if_pos hrec, modifiedChanged_of_changed hchanged, ite_self]
    have hmode := h.sameMode_push a
    rw [hedited]
    refine ⟨?_, ?_, ?_, ?_, fun _ => hmode.isRecording_eq.trans hrec, fun _ => hpushed⟩
    · rw [hmode.inUserAction]
      exact hc.open_iff
    · intro hopen
      rw [hmode.inUserAction] at hopen
      rw [History.push]
      simp only [hopen, Bool.false_eq_true, if_false]
      exact pending_closePending _
    · intro h
      cases h
    · intro _ hlimit
      rw [hmode.limit] at hlimit
      exact absurd hlimit (isRecording_iff.1 hrec).2

/-! User actions -/

theorem closePending_of_settled (hp : h.pending = none) : h.closePending = h := by
  rw [closePending, hp]

theorem Recorded.closePending (hr : Recorded L origin saved t m h) (hlimit : h.limit ≠ 0)
    (hL : h.hasPending = true → L t) (hroom : origin ≠ none → ¬h.Evicts) :
    Recorded L origin saved t m h.closePending := by
  obtain ⟨texts, ht, hp, hflag⟩ := hr
  obtain ⟨texts', ht', hhere, hat⟩ := ht.closePending hp hL hlimit hroom
  have hnone : h.closePending.gathered = [] := by rw [gathered, pending_closePending]; rfl
  refine ⟨texts', ht', hnone ▸ hhere ▸ .nil _, hflag.trans ?_⟩
  rw [hat, hasPending_eq h.closePending, hnone]
  exact ⟨fun h => ⟨h, rfl⟩, And.left⟩

theorem Recorded.inUserAction (hr : Recorded L origin saved t m h) (b : Bool) :
    Recorded L origin saved t m { h with inUserAction := b } := by
  obtain ⟨texts, ht, hp, hflag⟩ := hr
  exact ⟨texts, ⟨ht.location_le, ht.leads, ht.landmark, ht.saved, ht.origin⟩, hp, hflag⟩

theorem Bare.inUserAction (hb : h.Bare) (b : Bool) : Bare { h with inUserAction := b } :=
  ⟨hb.steps, hb.location, hb.pending, hb.saved⟩

theorem Coherent.beginUserAction (hc : Coherent L origin saved t m h depth) :
    Coherent L origin saved t m (if depth = 0 then h.beginUserAction else h) (depth + 1) := by
  split
  · exact { hc with
      open_iff := ⟨fun _ => Nat.succ_pos _, fun _ => rfl⟩
      settled := fun hopen => by cases hopen
      off := fun hs hlimit => (hc.off hs hlimit).inUserAction true
      recorded := fun hrec => (hc.recorded hrec).inUserAction true }
  · exact { hc with
      open_iff := hc.open_iff.trans ⟨fun _ => Nat.succ_pos _, fun _ => by omega⟩ }

/-- The end of an inner user action. -/
theorem Coherent.leaveUserAction (hc : Coherent L origin saved t m h depth) (hd : 1 < depth) :
    Coherent L origin saved t m h (depth - 1) :=
  { hc with open_iff := hc.open_iff.trans ⟨fun _ => by omega, fun _ => by omega⟩ }

theorem Coherent.finishUserAction (hc : Coherent L origin saved t m h depth) (hL : L t)
    (hroom : origin ≠ none → ¬h.Evicts) :
    Coherent L origin saved t m h.finishUserAction 0 := by
  have hmode := h.sameMode_closePending
  have hopen_iff : false = true ↔ 0 < 0 :=
    ⟨fun hopen => (by cases hopen), fun hlt => absurd hlt (Nat.lt_irrefl 0)⟩
  refine ⟨hopen_iff, fun _ => h.pending_closePending, hc.clean, ?_, ?_, ?_⟩
  · intro hs hlimit
    have hs' : h.suspensions = 0 := hmode.suspensions ▸ hs
    have hoff := hc.off hs' (hmode.limit ▸ hlimit)
    rw [History.finishUserAction, closePending_of_settled hoff.pending]
    exact hoff.inUserAction false
  · intro horigin
    exact hmode.isRecording_eq.trans (hc.whole horigin)
  · intro hrec
    have hrec' : h.isRecording = true := hmode.isRecording_eq ▸ hrec
    have hclosed := (hc.recorded hrec').closePending (isRecording_iff.1 hrec').2 (fun _ => hL) hroom
    exact hclosed.inUserAction false

/-! The flag -/

theorem sameMode_modifiedChanged (h : History) (b : Bool) : h.SameMode (h.modifiedChanged b) := by
  unfold modifiedChanged
  split
  · exact .refl h
  · split
    · split
      · exact ⟨rfl, rfl, rfl⟩
      · exact .refl h
    · dsimp only
      split
      · have hmode := h.sameMode_closePending
        exact ⟨hmode.inUserAction, hmode.suspensions, hmode.limit⟩
      · exact ⟨rfl, rfl, rfl⟩

theorem modifiedChanged_of_off (hrec : h.isRecording = false) (b : Bool) :
    h.modifiedChanged b = h := by
  rw [modifiedChanged, hrec]
  rfl

/-- The flag is set though nothing was done, so that the saved state is given up. -/
theorem Coherent.setModified (hc : Coherent L origin saved t false h depth) :
    Coherent L origin saved t true (h.modifiedChanged true) depth := by
  cases hrec : h.isRecording with
  | false =>
    rw [modifiedChanged_of_off hrec]
    exact { hc with
      clean := fun hm => by cases hm
      recorded := fun hon => by rw [hrec] at hon; cases hon }
  | true =>
    obtain ⟨texts, ht, hp, hflag⟩ := hc.recorded hrec
    obtain ⟨hat, hnone⟩ := hflag.1 rfl
    have hchanged : h.modifiedChanged true = { h with saved := none } := by
      rw [AtSaved] at hat
      simp [modifiedChanged, hrec, hat, hnone]
    rw [hchanged]
    refine { hc with
      clean := fun hm => by cases hm
      off := fun hs hlimit => ?_
      recorded := fun _ => ⟨texts, { ht with saved := fun i hi => (by cases hi) }, hp, ?_⟩ }
    · exact absurd hlimit (isRecording_iff.1 hrec).2
    · exact ⟨fun hm => (by cases hm), fun h => (by cases h.1)⟩

/-- The text is saved, which ends a step within a user action. -/
theorem Coherent.save (hc : Coherent L origin saved t m h depth) (hL : 0 < depth → L t)
    (hroom : origin ≠ none → ¬h.Evicts) :
    Coherent L origin t t false (h.modifiedChanged false) depth := by
  cases hrec : h.isRecording with
  | false =>
    rw [modifiedChanged_of_off hrec]
    exact { hc with
      clean := fun _ => rfl
      recorded := fun hon => by rw [hrec] at hon; cases hon }
  | true =>
    have hsave : h.modifiedChanged false =
        { h.closePending with saved := some h.closePending.location } := by
      rw [modifiedChanged, hrec]
      simp only [Bool.not_true, Bool.false_eq_true, if_false]
      cases hopen : h.inUserAction with
      | true => rfl
      | false => rw [closePending_of_settled (hc.settled hopen)]; rfl
    have hpending : h.hasPending = true → L t := fun hp => hL (hc.open_iff.1 (by
      cases hopen : h.inUserAction with
      | true => rfl
      | false =>
        rw [hasPending, hc.settled hopen] at hp
        cases hp))
    obtain ⟨texts, ht, hp, -⟩ :=
      (hc.recorded hrec).closePending (isRecording_iff.1 hrec).2 hpending hroom
    have hnone : h.closePending.gathered = [] := by rw [gathered, pending_closePending]; rfl
    have hhere : texts h.closePending.location = t := by
      rw [hnone] at hp
      cases hp
      rfl
    have hmode := h.sameMode_closePending
    rw [hsave]
    refine ⟨?_, fun _ => h.pending_closePending, fun _ => rfl, ?_, ?_, ?_⟩
    · rw [hmode.inUserAction]
      exact hc.open_iff
    · intro hs hlimit
      rw [hmode.limit] at hlimit
      exact absurd hlimit (isRecording_iff.1 hrec).2
    · exact fun _ => hmode.isRecording_eq.trans hrec
    · intro _
      refine ⟨texts, { ht with saved := fun i hi => ?_ }, hp, fun _ => ⟨rfl, ?_⟩, fun _ => rfl⟩
      · obtain rfl := Option.some.inj hi
        exact ⟨ht.location_le, hhere⟩
      · rw [hasPending, pending_closePending]
        rfl

/-! Limits and suspensions -/

theorem bare_clear (h : History) : h.clear.Bare := by
  refine ⟨rfl, rfl, rfl, ?_⟩
  intro i hi
  obtain ⟨_, -, hzero⟩ := Option.map_eq_some_iff.1 hi
  exact hzero.symm

/-- The saved state is kept in mind exactly if it is the present one. -/
theorem Bare.modifiedChanged (hb : h.Bare) (hrec : h.isRecording = true) (m : Bool) :
    h.modifiedChanged m = { h with saved := if m then none else some 0 } := by
  unfold History.modifiedChanged
  rw [hrec]
  simp only [Bool.not_true, Bool.false_eq_true, if_false]
  cases m with
  | false =>
    simp only [Bool.false_eq_true, if_false, closePending_of_settled hb.pending, ite_self,
      hb.location]
  | true =>
    simp only [if_true]
    have hpending : h.hasPending = false := by rw [hasPending, hb.pending]; rfl
    cases hs : h.saved with
    | none => simp [← hs]
    | some i =>
      obtain rfl := hb.saved i hs
      simp [hb.location, hpending]

/-- A history that has forgotten everything is told of the flag. -/
theorem Coherent.of_bare (hb : h.Bare) (hopen : h.inUserAction = true ↔ 0 < depth)
    (hclean : m = false → t = saved) (hL : h.isRecording = true → L t) :
    Coherent L none saved t m (h.modifiedChanged m) depth := by
  have hmode := h.sameMode_modifiedChanged m
  cases hrec : h.isRecording with
  | false =>
    rw [modifiedChanged_of_off hrec]
    exact ⟨hopen, fun _ => hb.pending, hclean,
      fun _ _ => hb, fun h => absurd rfl h,
      fun hon => by rw [hrec] at hon; cases hon⟩
  | true =>
    rw [hmode.inUserAction.symm] at hopen
    have hsaved := hb.modifiedChanged hrec m
    refine ⟨hopen, ?_, hclean, ?_, fun h => absurd rfl h, ?_⟩
    · intro _
      rw [hsaved]
      exact hb.pending
    · intro _ hlimit
      rw [hmode.limit] at hlimit
      exact absurd hlimit (isRecording_iff.1 hrec).2
    · intro _
      rw [hsaved]
      refine recorded_single hb.steps hb.location hb.pending (hL hrec) ?_ ?_ (fun _ h => by cases h)
      · cases m <;> simp [AtSaved, hb.location]
      · cases m with
        | true => simp
        | false => exact fun i hi => ⟨(Option.some.inj hi).symm, hclean rfl⟩

theorem Coherent.beginNotUndoable (hc : Coherent L none saved t m h depth) :
    Coherent L none saved t m h.beginNotUndoable depth :=
  ⟨hc.open_iff, hc.settled, hc.clean, fun hs => absurd hs (Nat.succ_ne_zero _),
    fun h => absurd rfl h, fun hrec => absurd (isRecording_iff.1 hrec).1 (Nat.succ_ne_zero _)⟩

/-- The end of the outermost suspension leaves a history that knows the present text only. -/
theorem Coherent.endNotUndoable (hc : Coherent L origin saved t m h depth) {g : History}
    (hg : h.endNotUndoable = .ok g) (hL : g.isRecording = true → L t) :
    Coherent L origin saved t m (g.modifiedChanged m) depth := by
  have hlost : 0 < h.suspensions → origin = none := fun hs => by
    cases origin with
    | none => rfl
    | some t' =>
      have := (isRecording_iff.1 (hc.whole (Option.some_ne_none t'))).1
      omega
  unfold History.endNotUndoable at hg
  split at hg
  · cases hg
  · rename_i hs
    obtain rfl := Except.ok.inj hg
    rw [hlost (by omega)]
    exact .of_bare (bare_clear _) hc.open_iff hc.clean hL
  · rename_i n hs
    obtain rfl := Except.ok.inj hg
    have hrec : ({ h with suspensions := n + 1 } : History).isRecording = false := by
      simp [isRecording]
    rw [modifiedChanged_of_off hrec, hlost (by omega)]
    exact ⟨hc.open_iff, hc.settled, hc.clean, fun hs => absurd hs (Nat.succ_ne_zero _),
      fun h => absurd rfl h, fun hon => by rw [hrec] at hon; cases hon⟩

/-- The history under another limit, told of the flag if it begins to record. -/
def relimited (h : History) (limit : Int) (modified : Bool) : History :=
  if !h.isRecording && (h.setLimit limit).isRecording then
    (h.setLimit limit).modifiedChanged modified
  else h.setLimit limit

theorem trim_of_bare (hb : h.Bare) (hlimit : h.limit ≠ 0) : h.trim = h := by
  unfold trim
  split
  · rfl
  · rw [hb.steps, List.length_nil, Nat.zero_sub, Nat.repeat]

theorem pending_trim_of_limit (hlimit : h.limit ≠ 0) : h.trim.pending = h.pending := by
  unfold trim
  split
  · rfl
  · exact h.pending_repeat _

theorem Recorded.trim (hr : Recorded L origin saved t m h) (hlimit : h.limit ≠ 0)
    (hroom : origin ≠ none → 0 ≤ h.limit → (h.location : Int) ≤ h.limit) :
    Recorded L origin saved t m h.trim := by
  obtain ⟨texts, ht, hp, hflag⟩ := hr
  obtain ⟨texts', ht', hhere, hat⟩ := keeps_trim hlimit hroom ht
  have hpending := pending_trim_of_limit hlimit
  refine ⟨texts', ht', ?_, ?_⟩
  · rw [gathered, hpending, hhere]
    exact hp
  · rw [hat, hasPending, hpending]
    exact hflag

/-- Another limit while edits are recorded. -/
theorem Coherent.limited (hc : Coherent L origin saved t m h depth) (hrec : h.isRecording = true)
    {g : History} (hg : ∃ limit, g = { h with limit := limit })
    (hkept : origin ≠ none → g.limit ≠ 0 ∧ (0 ≤ g.limit → (g.location : Int) ≤ g.limit)) :
    Coherent L origin saved t m g.trim depth := by
  have hmode := g.sameMode_trim
  have hopen : g.trim.inUserAction = true ↔ 0 < depth := by
    obtain ⟨limit, rfl⟩ := hg
    rw [hmode.inUserAction]
    exact hc.open_iff
  have hsusp : g.suspensions = 0 := by
    obtain ⟨limit, rfl⟩ := hg
    exact (isRecording_iff.1 hrec).1
  by_cases hzero : g.limit = 0
  · have hlost : origin = none := by
      cases origin with
      | none => rfl
      | some t' => exact absurd hzero (hkept (Option.some_ne_none t')).1
    have hclear : g.trim = g.clear := by rw [History.trim, if_neg (by omega), if_pos hzero]
    have hoff : g.clear.isRecording = false := by simp [isRecording, clear, hzero]
    have hbare := Coherent.of_bare (L := L) (bare_clear g) (hclear ▸ hopen) hc.clean fun hon => by
      rw [hoff] at hon
      cases hon
    rw [modifiedChanged_of_off hoff] at hbare
    rw [hclear, hlost]
    exact hbare
  · have hrecorded : Recorded L origin saved t m g := by
      obtain ⟨limit, rfl⟩ := hg
      obtain ⟨texts, ht, hp, hflag⟩ := hc.recorded hrec
      exact ⟨texts, ⟨ht.location_le, ht.leads, ht.landmark, ht.saved, ht.origin⟩, hp, hflag⟩
    refine ⟨hopen, ?_, hc.clean, ?_, ?_, ?_⟩
    · intro hclosed
      rw [pending_trim_of_limit hzero]
      rw [hmode.inUserAction] at hclosed
      obtain ⟨limit, rfl⟩ := hg
      exact hc.settled hclosed
    · intro _ hlimit
      exact absurd (hmode.limit ▸ hlimit) hzero
    · intro _
      exact hmode.isRecording_eq.trans (isRecording_iff.2 ⟨hsusp, hzero⟩)
    · intro _
      exact hrecorded.trim hzero fun horigin => (hkept horigin).2

/-- Another limit while nothing is recorded, which may begin the recording. -/
theorem Coherent.limited_of_off (hc : Coherent L none saved t m h depth)
    (hrec : h.isRecording = false) {g : History} {limit : Int} (hg : g = { h with limit := limit })
    (hother : h.limit ≠ limit) (hL : g.trim.isRecording = true → L t) :
    Coherent L none saved t m
      (if g.trim.isRecording then g.trim.modifiedChanged m else g.trim) depth := by
  have hmode := g.sameMode_trim
  have hopen : g.trim.inUserAction = true ↔ 0 < depth := by
    rw [hmode.inUserAction, hg]
    exact hc.open_iff
  by_cases hsusp : h.suspensions = 0
  · -- recording was off for want of a limit, and begins
    have hzero : h.limit = 0 := by
      by_cases hlimit : h.limit = 0
      · exact hlimit
      · rw [isRecording_iff.2 ⟨hsusp, hlimit⟩] at hrec
        cases hrec
    have hoff := hc.off hsusp hzero
    have hbare : g.Bare := hg ▸ ⟨hoff.steps, hoff.location, hoff.pending, hoff.saved⟩
    have hlimit : g.limit ≠ 0 := by
      rw [hg]
      exact fun h => hother (hzero.trans h.symm)
    have hon : g.isRecording = true := isRecording_iff.2 ⟨hg ▸ hsusp, hlimit⟩
    rw [trim_of_bare hbare hlimit] at hL hopen ⊢
    rw [if_pos hon]
    exact .of_bare hbare hopen hc.clean hL
  · have hoff : g.trim.isRecording = false := by
      rw [hmode.isRecording_eq, hg]
      simp [isRecording, hsusp]
    rw [hoff, if_neg Bool.false_ne_true]
    refine ⟨hopen, ?_, hc.clean, ?_, ?_, ?_⟩
    · intro hclosed
      rw [hmode.inUserAction, hg] at hclosed
      exact pending_trim g (hg ▸ hc.settled hclosed)
    · intro hs
      rw [hmode.suspensions, hg] at hs
      exact absurd hs hsusp
    · exact fun h => absurd rfl h
    · intro hon
      rw [hoff] at hon
      cases hon

/-- To limit a history loses steps, but those that are left lead to the present text. -/
theorem Coherent.relimited (hc : Coherent L origin saved t m h depth) {limit : Int}
    (hkept : origin ≠ none → limit ≠ 0 ∧ (0 ≤ limit → (h.location : Int) ≤ limit))
    (hL : h.isRecording = false → (h.setLimit limit).isRecording = true → L t) :
    Coherent L origin saved t m (h.relimited limit m) depth := by
  by_cases hsame : h.limit = max limit (-1)
  · have hset : h.setLimit limit = h := by rw [setLimit]; exact if_pos hsame
    rw [History.relimited, hset, Bool.not_and_self]
    exact hc
  · obtain ⟨g, hg⟩ : ∃ g, g = { h with limit := max limit (-1) } := ⟨_, rfl⟩
    have hset : h.setLimit limit = g.trim := by
      rw [setLimit, hg]
      exact if_neg hsame
    rw [hset] at hL
    rw [History.relimited, hset]
    cases hrec : h.isRecording with
    | true =>
      rw [Bool.not_true, Bool.false_and, if_neg Bool.false_ne_true]
      apply hc.limited hrec ⟨_, hg⟩
      intro horigin
      obtain ⟨hne, hle⟩ := hkept horigin
      rw [hg]
      simp only
      omega
    | false =>
      have hlost : origin = none := by
        cases origin with
        | none => rfl
        | some t' =>
          rw [hc.whole (Option.some_ne_none t')] at hrec
          cases hrec
      subst hlost
      rw [Bool.not_false, Bool.true_and]
      exact hc.limited_of_off hrec hg hsame (hL hrec)

end History
end CodeBuffer
