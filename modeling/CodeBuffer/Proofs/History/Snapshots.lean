import CodeBuffer.Proofs.History.Calls

namespace CodeBuffer

/-- A text with the cursor and the other end of the selection. -/
structure Snapshot where
  text : Text
  cursor : Nat
  bound : Nat
  deriving DecidableEq, Repr

def Document.snapshot (d : Document) : Snapshot := ⟨d.text, d.cursor, d.bound⟩

/-- The selection is the one to show once the action is undone. -/
def Action.Shows (a : Action) (cursor bound : Nat) : Prop :=
  match a.kind with
  | .insertion => cursor = a.start ∧ bound = a.start
  | .deletion => a.selection = some (cursor, bound)

/-- An edit that carries another one on leaves the place alone where that one began. -/
theorem Action.Shows.merge {a b c : Action} {i j : Nat} (ha : a.Shows i j)
    (h : a.merge? b = some c) : c.Shows i j := by
  unfold Action.Shows at ha ⊢
  unfold merge? at h
  split at h
  · rename_i hka hkb
    split at h
    · obtain rfl := Option.some.inj h
      exact ha
    · cases h
  · rename_i hka hkb
    rw [hka] at ha
    split at h
    · split at h
      · obtain rfl := Option.some.inj h
        rw [hka]
        exact ha
      · cases h
    · split at h
      · split at h
        · obtain rfl := Option.some.inj h
          rw [hka]
          exact ha
        · cases h
      · cases h
    · cases h
  · cases h

namespace Snapshot

/-- The snapshot is where the actions begin. Its selection is in the text, and comes back once they
are undone. -/
structure Opens (s : Snapshot) (as : List Action) : Prop where
  cursor_le : s.cursor ≤ s.text.length
  bound_le : s.bound ≤ s.text.length
  shows : ∃ a rest, as = a :: rest ∧ a.Shows s.cursor s.bound

variable {s : Snapshot} {fs : List Snapshot} {as : List Action} {ass : List (List Action)}
  {t : Text} {n : Nat}

theorem Opens.snoc (h : s.Opens as) (b : Action) : s.Opens (as ++ [b]) := by
  obtain ⟨a, rest, rfl, ha⟩ := h.shows
  exact { h with shows := ⟨a, rest ++ [b], rfl, ha⟩ }

theorem Opens.ne_nil (h : s.Opens as) : as ≠ [] := by
  obtain ⟨a, rest, rfl, -⟩ := h.shows
  exact List.cons_ne_nil a rest

theorem Opens.merge {g g' both : Step} (h : s.Opens g.actions) (hm : g.merge? g' = some both) :
    s.Opens both.actions := by
  obtain ⟨a, rest, hactions, ha⟩ := h.shows
  unfold Step.merge? at hm
  split at hm
  · rename_i a' b ha' hb
    split at hm
    · cases hm
    · obtain ⟨c, hc, rfl⟩ := Option.map_eq_some_iff.1 hm
      obtain ⟨rfl, -⟩ := List.cons.inj (ha'.symm.trans hactions)
      exact { h with shows := ⟨c, [], rfl, ha.merge hc⟩ }
  · cases hm

/-- The text at the first of the snapshots, or at the end if there is none. -/
def startText (fs : List Snapshot) (t : Text) : Text := (fs.head?.map text).getD t

/-- The text at a snapshot, or at the end behind them all. -/
def textAt (fs : List Snapshot) (t : Text) (n : Nat) : Text := startText (fs.drop n) t

/-- The steps begin at the snapshots, and lead from one to the next and at last to the text. -/
def Laid : List Snapshot → List (List Action) → Text → Prop
  | [], [], _ => True
  | s :: fs, as :: ass, t => s.Opens as ∧ LeadAll as s.text (startText fs t) ∧ Laid fs ass t
  | _, _, _ => False

namespace Laid

theorem length_eq (h : Laid fs ass t) : fs.length = ass.length := by
  induction fs generalizing ass with
  | nil =>
    cases ass with
    | nil => rfl
    | cons as ass => exact h.elim
  | cons s fs ih =>
    cases ass with
    | nil => exact h.elim
    | cons as ass => exact congrArg (· + 1) (ih h.2.2)

/-- A step more. -/
theorem concat (h : Laid fs ass s.text) (hs : s.Opens as) (hlead : LeadAll as s.text t) :
    Laid (fs ++ [s]) (ass ++ [as]) t := by
  induction fs generalizing ass with
  | nil =>
    cases ass with
    | nil => exact ⟨hs, hlead, trivial⟩
    | cons as' ass => exact h.elim
  | cons s' fs ih =>
    cases ass with
    | nil => exact h.elim
    | cons as' ass =>
      refine ⟨h.1, ?_, ih h.2.2⟩
      have hstart : startText (fs ++ [s]) t = startText fs s.text := by
        cases fs <;> rfl
      exact hstart ▸ h.2.1

theorem drop (h : Laid fs ass t) (n : Nat) : Laid (fs.drop n) (ass.drop n) t := by
  induction n generalizing fs ass with
  | zero => exact h
  | succ n ih =>
    cases fs with
    | nil =>
      cases ass with
      | nil => exact h
      | cons as ass => exact h.elim
    | cons s fs =>
      cases ass with
      | nil => exact h.elim
      | cons as ass => exact ih h.2.2

theorem take (h : Laid fs ass t) (n : Nat) : Laid (fs.take n) (ass.take n) (textAt fs t n) := by
  induction n generalizing fs ass with
  | zero => trivial
  | succ n ih =>
    cases fs with
    | nil =>
      cases ass with
      | nil => trivial
      | cons as ass => exact h.elim
    | cons s fs =>
      cases ass with
      | nil => exact h.elim
      | cons as ass =>
        refine ⟨h.1, ?_, ih h.2.2⟩
        have hstart : startText (fs.take n) (textAt fs t n) = startText fs t := by
          cases fs with
          | nil => rw [textAt, List.take_nil, List.drop_nil]; rfl
          | cons s' fs => cases n <;> rfl
        exact hstart ▸ h.2.1

/-- One of the steps, from its snapshot to the next. -/
theorem get (h : Laid fs ass t) (hn : ass[n]? = some as) :
    ∃ s, fs[n]? = some s ∧ s.Opens as ∧ textAt fs t n = s.text ∧
      LeadAll as s.text (textAt fs t (n + 1)) := by
  have hdrop := h.drop n
  have hrest : ass.drop n = as :: ass.drop (n + 1) := by
    obtain ⟨hlt, hget⟩ := List.getElem?_eq_some_iff.1 hn
    rw [← hget]
    exact List.drop_eq_getElem_cons hlt
  rw [hrest] at hdrop
  cases hfs : fs.drop n with
  | nil =>
    rw [hfs] at hdrop
    exact hdrop.elim
  | cons s fs' =>
    rw [hfs] at hdrop
    have hget : fs[n]? = some s := by
      have := congrArg List.head? hfs
      rwa [List.head?_drop] at this
    have hnext : fs.drop (n + 1) = fs' := by
      rw [← List.tail_drop, hfs]
      rfl
    refine ⟨s, hget, hdrop.1, ?_, ?_⟩
    · rw [textAt, hfs]
      rfl
    · rw [textAt, hnext]
      exact hdrop.2.1

/-- All but the last of the steps. -/
theorem init (h : Laid fs (ass ++ [as]) t) : ∃ s, fs = fs.take ass.length ++ [s] ∧
    Laid (fs.take ass.length) ass s.text ∧ s.Opens as ∧ LeadAll as s.text t := by
  have hlength := h.length_eq
  rw [List.length_append, List.length_singleton] at hlength
  have hlast : (ass ++ [as])[ass.length]? = some as := List.getElem?_concat_length
  obtain ⟨s, hget, hs, htext, hlead⟩ := h.get hlast
  have hbefore := h.take ass.length
  rw [List.take_left, htext] at hbefore
  have hnone : fs.drop (ass.length + 1) = [] := List.drop_eq_nil_of_le (by omega)
  rw [textAt, hnone] at hlead
  refine ⟨s, ?_, hbefore, hs, hlead⟩
  obtain ⟨hlt, hlast⟩ := List.getElem?_eq_some_iff.1 hget
  rw [← hlast, List.take_append_getElem hlt, List.take_of_length_le (by omega)]

theorem textAt_end (h : Laid fs ass t) : textAt fs t ass.length = t := by
  rw [textAt, ← h.length_eq, List.drop_length]
  rfl

end Laid

/-- The snapshots once the gathered edits, which began at `opening`, are closed. What was undone is
forgotten. The edits make a step more, or they belong to the newest one that is done. -/
def settle (fs : List Snapshot) (opening : Option Snapshot) (old new : Nat) : List Snapshot :=
  match opening with
  | none => fs
  | some s => fs.take old ++ if old < new then [s] else []

end Snapshot

namespace History

open Snapshot (textAt Laid settle)

/-- The steps begin at the snapshots. If edits were gathered, they began at the snapshot `opening`,
where the steps that are done end, and lead from there to the text. -/
def Recalls (firsts : List Snapshot) (opening : Option Snapshot) (t : Text) (h : History) : Prop :=
  ∃ finish, Laid firsts (h.steps.map Step.actions) finish ∧
    match opening with
    | none => h.gathered = [] ∧ t = textAt firsts finish h.location
    | some s => s.Opens h.gathered ∧ s.text = textAt firsts finish h.location ∧
        LeadAll h.gathered s.text t

variable {firsts : List Snapshot} {opening : Option Snapshot} {s : Snapshot} {t t' : Text}
  {h h' : History} {a : Action}

theorem Recalls.of_eq (hr : h.Recalls firsts opening t) (hsteps : h'.steps = h.steps)
    (hlocation : h'.location = h.location) (hgathered : h'.gathered = h.gathered) :
    h'.Recalls firsts opening t := by
  obtain ⟨finish, hlaid, hopening⟩ := hr
  refine ⟨finish, by rwa [hsteps], ?_⟩
  rw [hlocation, hgathered]
  exact hopening

theorem push_of_open (hopen : h.inUserAction = true) (a : Action) :
    h.push a = { h with pending := some ((h.pending.getD ⟨[], false⟩).push a) } := if_pos hopen

theorem gathered_push (hopen : h.inUserAction = true) (a : Action) :
    (h.push a).gathered = h.gathered ++ [a] := by
  rw [push_of_open hopen, gathered, gathered]
  cases h.pending <;> rfl

/-- The first edit that is gathered. -/
theorem Recalls.first (hr : h.Recalls firsts none s.text) (hopen : h.inUserAction = true)
    (hs : s.Opens [a]) (ha : a.Leads s.text t) : (h.push a).Recalls firsts (some s) t := by
  obtain ⟨finish, hlaid, hnone, htext⟩ := hr
  rw [Recalls, gathered_push hopen, hnone, push_of_open hopen]
  exact ⟨finish, hlaid, hs, htext, .cons ha (.nil t)⟩

/-- Another edit is gathered. -/
theorem Recalls.next (hr : h.Recalls firsts (some s) t) (hopen : h.inUserAction = true)
    (ha : a.Leads t t') : (h.push a).Recalls firsts (some s) t' := by
  obtain ⟨finish, hlaid, hs, htext, hlead⟩ := hr
  rw [Recalls, gathered_push hopen, push_of_open hopen]
  exact ⟨finish, hlaid, hs.snoc a, htext, hlead.snoc ha⟩

/-- All steps are done and no edits are gathered. -/
theorem recalls_of_laid (hlaid : Laid firsts (h.steps.map Step.actions) t)
    (hlocation : h.location = h.steps.length) (hpending : h.pending = none) :
    h.Recalls firsts none t := by
  have hend := hlaid.textAt_end
  rw [List.length_map, ← hlocation] at hend
  exact ⟨t, hlaid, by rw [gathered, hpending]; rfl, hend.symm⟩

theorem trim_of_unlimited (hlimit : h.limit < 0) : h.trim = h := by
  rw [trim, if_pos hlimit]

theorem steps_forgetUndone (h : History) : h.forgetUndone.steps = h.steps.take h.location := by
  unfold forgetUndone
  split
  · rename_i hall
    exact (List.take_of_length_le hall).symm
  · rfl

/-- The newest step takes in another one and keeps its snapshot. -/
theorem recalls_merge {before : List Step} {last step both : Step}
    (hdone : Laid firsts (h.steps.map Step.actions) s.text) (hlast : h.steps = before ++ [last])
    (hm : last.merge? step = some both) (hlead : LeadAll step.actions s.text t)
    (hlocation : h.location = h.steps.length) (hpending : h.pending = none) :
    { h with steps := before ++ [both] }.Recalls firsts none t := by
  rw [hlast, List.map_append] at hdone
  obtain ⟨s', hfirsts, hbefore, hs', hlead'⟩ := hdone.init
  have hmerged := hbefore.concat (hs'.merge hm) (hlead'.merge hlead hm)
  rw [← hfirsts] at hmerged
  refine recalls_of_laid ?_ (hlocation.trans (length_merge hlast).symm) hpending
  rw [List.map_append]
  exact hmerged

theorem recalls_extended {step : Step} (hdone : Laid firsts (h.steps.map Step.actions) s.text)
    (hs : s.Opens step.actions) (hlead : LeadAll step.actions s.text t)
    (hpending : h.pending = none) : (h.extended step).Recalls (firsts ++ [s]) none t := by
  refine recalls_of_laid ?_ (h.length_extended step).symm hpending
  rw [extended, List.map_append, map_actions_sealed]
  exact hdone.concat hs hlead

/-- The gathered edits go into the newest step, which keeps its snapshot, or they become a step of
their own. -/
theorem Recalls.closePending (hr : h.Recalls firsts opening t) (hlimit : h.limit < 0)
    (hle : h.location ≤ h.steps.length) :
    h.closePending.Recalls (settle firsts opening h.location h.closePending.location) none t := by
  obtain ⟨finish, hlaid, hopening⟩ := hr
  rcases h.closePending_cases with ⟨hnone, heq⟩ | ⟨step, hstep, hne, g, hg, hcases⟩
  · have hempty : h.gathered = [] := by simpa [hasPending_eq] using hnone
    cases opening with
    | none =>
      rw [heq]
      exact ⟨finish, hlaid, rfl, hopening.2⟩
    | some s => exact absurd hempty hopening.1.ne_nil
  · have hgathered : h.gathered = step.actions := by rw [gathered, hstep]; rfl
    cases opening with
    | none => exact absurd (hgathered.symm.trans hopening.1) hne
    | some s =>
      obtain ⟨hs, htext, hlead⟩ := hopening
      rw [hgathered] at hs hlead
      have hsteps : g.steps = h.steps.take h.location := hg ▸ steps_forgetUndone _
      have hlocation : g.location = h.location := hg ▸ location_forgetUndone _
      have hpending : g.pending = none := hg ▸ pending_forgetUndone _
      have hlength : g.steps.length = h.location := by
        rw [hsteps]
        exact List.length_take_of_le hle
      have hdone : Laid (firsts.take h.location) (g.steps.map Step.actions) s.text := by
        rw [hsteps, htext, List.map_take]
        exact hlaid.take h.location
      rcases hcases with ⟨before, last, both, hlast, hm, -, heq⟩ | heq
      · rw [heq, settle]
        dsimp only
        rw [if_neg (by omega), List.append_nil]
        exact recalls_merge hdone hlast hm hlead (hlocation.trans hlength.symm) hpending
      · have hmode := sameMode_forgetUndone { h with pending := none }
        rw [← hg] at hmode
        have hunlimited : (g.extended step).limit < 0 := hmode.limit.symm ▸ hlimit
        have hmore : h.location < (g.extended step).location := by
          rw [extended, hlength]
          exact Nat.lt_succ_self _
        rw [heq, trim_of_unlimited hunlimited, settle, if_pos hmore]
        exact recalls_extended hdone hs hlead hpending

theorem Recalls.finishUserAction (hr : h.Recalls firsts opening t) (hlimit : h.limit < 0)
    (hle : h.location ≤ h.steps.length) : h.finishUserAction.Recalls
      (settle firsts opening h.location h.finishUserAction.location) none t :=
  (hr.closePending hlimit hle).of_eq rfl rfl rfl

end History
end CodeBuffer
