import CodeBuffer.Proofs.History.Calls
import CodeBuffer.Proofs.History.Merging

namespace CodeBuffer

/-- The edit has a text, and a range that is not empty. -/
structure Action.Substantial (a : Action) : Prop where
  text : a.text ≠ []
  range : a.start < a.stop

/-- The edit of a replay, if it is one, has a text or a range that is not empty. -/
def ReplayCommand.Substantial : ReplayCommand → Prop
  | .insert _ t => t ≠ []
  | .delete start stop => start < stop
  | _ => True

namespace Action

variable {a b c : Action}

theorem Substantial.merge (ha : a.Substantial) (hb : b.Substantial) (h : a.merge? b = some c) :
    c.Substantial := by
  have hrange := ha.range
  have hrange' := hb.range
  obtain ⟨hjoined, -, -⟩ := joined_of_merge? h
  cases hjoined with
  | typed _ _ hjoin =>
    exact ⟨fun hnil => ha.text (List.append_eq_nil_iff.1 hnil).1, by dsimp only; omega⟩
  | forward _ _ _ _ hjoin =>
    exact ⟨fun hnil => ha.text (List.append_eq_nil_iff.1 hnil).1, by dsimp only; omega⟩
  | backward _ _ _ _ hjoin =>
    exact ⟨fun hnil => hb.text (List.append_eq_nil_iff.1 hnil).1, by dsimp only; omega⟩

theorem Substantial.undo (ha : a.Substantial) : a.undo.Substantial := by
  unfold Action.undo
  cases a.kind with
  | insertion => exact ha.range
  | deletion => exact ha.text

theorem Substantial.redo (ha : a.Substantial) : a.redo.Substantial := by
  unfold Action.redo
  cases a.kind with
  | insertion => exact ha.text
  | deletion => exact ha.range

theorem substantial_selectionBefore (a : Action) : a.selectionBefore.Substantial := by
  unfold selectionBefore
  split <;> trivial

theorem substantial_selectionAfter (a : Action) : a.selectionAfter.Substantial := by
  unfold selectionAfter
  split <;> trivial

end Action

/-- Every edit of the step is substantial. -/
def Step.Substantial (g : Step) : Prop := ∀ a ∈ g.actions, a.Substantial

namespace Step

variable {g h both : Step} {a : Action}

theorem Substantial.merge (hg : g.Substantial) (hh : h.Substantial) (hm : g.merge? h = some both) :
    both.Substantial := by
  unfold merge? at hm
  split at hm
  · rename_i a b ha hb
    split at hm
    · cases hm
    · obtain ⟨c, hc, rfl⟩ := Option.map_eq_some_iff.1 hm
      intro a' ha'
      rw [List.mem_singleton.1 ha']
      exact (hg a (by rw [ha]; exact List.mem_singleton_self a)).merge
        (hh b (by rw [hb]; exact List.mem_singleton_self b)) hc
  · cases hm

theorem Substantial.push (hg : g.Substantial) (ha : a.Substantial) : (g.push a).Substantial := by
  intro a' ha'
  rcases List.mem_append.1 ha' with ha' | ha'
  · exact hg a' ha'
  · rw [List.mem_singleton.1 ha']
    exact ha

end Step

namespace History

/-- Every edit that is recorded or gathered is substantial. -/
structure Substantial (h : History) : Prop where
  steps : ∀ g ∈ h.steps, g.Substantial
  pending : ∀ g, h.pending = some g → g.Substantial

namespace Substantial

variable {h h' : History} {step : Step} {a : Action}

/-- Some of the steps. -/
theorem of_subset (hs : h.Substantial) (hsteps : h'.steps ⊆ h.steps)
    (hpending : h'.pending = h.pending) : h'.Substantial :=
  ⟨fun g hg => hs.steps g (hsteps hg), by rw [hpending]; exact hs.pending⟩

theorem of_eq (hs : h.Substantial) (hsteps : h'.steps = h.steps)
    (hpending : h'.pending = h.pending) : h'.Substantial :=
  hs.of_subset (by rw [hsteps]; exact List.Subset.refl _) hpending

theorem empty : History.empty.Substantial := ⟨nofun, nofun⟩

theorem settle (hs : h.Substantial) : { h with pending := none }.Substantial := ⟨hs.steps, nofun⟩

theorem forgetUndone (hs : h.Substantial) : h.forgetUndone.Substantial := by
  unfold History.forgetUndone
  split
  · exact hs
  · exact hs.of_subset (List.take_subset _ _) rfl

theorem dropOne (hs : h.Substantial) : h.dropOne.Substantial := by
  unfold History.dropOne
  split
  · exact hs.of_subset (List.dropLast_subset _) rfl
  · exact hs.of_subset (List.tail_sublist _).subset rfl

theorem repeat_dropOne (hs : h.Substantial) (n : Nat) :
    (n.repeat History.dropOne h).Substantial := by
  induction n with
  | zero => exact hs
  | succ n ih => exact ih.dropOne

theorem clear (h : History) : h.clear.Substantial := ⟨nofun, nofun⟩

theorem trim (hs : h.Substantial) : h.trim.Substantial := by
  unfold History.trim
  split
  · exact hs
  · split
    · exact clear h
    · exact hs.repeat_dropOne _

theorem sealed (hs : h.Substantial) : ∀ g ∈ History.sealed h.steps, g.Substantial := by
  intro g hg
  have hmem : g.actions ∈ h.steps.map Step.actions := by
    rw [← map_actions_sealed]
    exact List.mem_map_of_mem hg
  obtain ⟨g', hg', heq⟩ := List.mem_map.1 hmem
  rw [Step.Substantial, ← heq]
  exact hs.steps g' hg'

theorem extended (hs : h.Substantial) (hstep : step.Substantial) :
    (h.extended step).Substantial := by
  refine ⟨fun g hg => ?_, hs.pending⟩
  rcases List.mem_append.1 hg with hg | hg
  · exact hs.sealed g hg
  · rwa [List.mem_singleton.1 hg]

theorem closePending (hs : h.Substantial) : h.closePending.Substantial := by
  have hforgotten := hs.settle.forgetUndone
  rcases h.closePending_cases with
    ⟨-, heq⟩ | ⟨step, hpending, -, g, rfl, ⟨before, last, both, hlast, hm, -, heq⟩ | heq⟩
  · rw [heq]
    exact hs.settle
  · rw [heq]
    refine ⟨fun g hg => ?_, hforgotten.pending⟩
    rcases List.mem_append.1 hg with hg | hg
    · exact hforgotten.steps g (by rw [hlast]; exact List.mem_append_left _ hg)
    · have hsub : last.Substantial := hforgotten.steps last (by rw [hlast]; simp)
      rw [List.mem_singleton.1 hg]
      exact hsub.merge (hs.pending step hpending) hm
  · rw [heq]
    exact (hforgotten.extended (hs.pending step hpending)).trim

theorem push (hs : h.Substantial) (ha : a.Substantial) : (h.push a).Substantial := by
  have hgathered : (h.pending.getD ⟨[], false⟩).Substantial := by
    cases hp : h.pending with
    | none => exact nofun
    | some g => exact hs.pending g hp
  have hpushed :
      { h with pending := some ((h.pending.getD ⟨[], false⟩).push a) }.Substantial := by
    refine ⟨hs.steps, fun g hg => ?_⟩
    rw [← Option.some.inj hg]
    exact hgathered.push ha
  unfold History.push
  dsimp only
  split
  · exact hpushed
  · exact hpushed.closePending

theorem recordInsertAt (hs : h.Substantial) (o : Nat) (t : Text) (selection : Nat × Nat) :
    (h.recordInsertAt o t selection).Substantial := by
  unfold History.recordInsertAt History.recordInsert
  split
  · exact hs
  · rename_i hrec
    have ht : t ≠ [] := fun hnil => hrec (by rw [hnil]; exact Bool.or_true _)
    refine hs.push ⟨ht, ?_⟩
    have := List.length_pos_iff.2 ht
    dsimp only
    omega

theorem recordDeleteAt (hs : h.Substantial) {start stop : Nat} {t : Text} (ht : t ≠ [])
    (selection : Nat × Nat) : (h.recordDeleteAt start stop t selection).Substantial := by
  unfold History.recordDeleteAt History.recordDelete
  dsimp only
  split
  · exact hs
  · rename_i hrec
    simp only [Bool.or_eq_true, decide_eq_true_eq, not_or, Nat.not_le] at hrec
    exact hs.push ⟨ht, hrec.2⟩

theorem finishUserAction (hs : h.Substantial) : h.finishUserAction.Substantial :=
  hs.closePending.of_eq rfl rfl

theorem modifiedChanged (hs : h.Substantial) (modified : Bool) :
    (h.modifiedChanged modified).Substantial := by
  unfold History.modifiedChanged
  split
  · exact hs
  · split
    · split
      · exact hs.of_eq rfl rfl
      · exact hs
    · dsimp only
      split
      · exact hs.closePending.of_eq rfl rfl
      · exact hs.of_eq rfl rfl

theorem setLimit (hs : h.Substantial) (limit : Int) : (h.setLimit limit).Substantial := by
  have hlimited : { h with limit := max limit (-1) }.Substantial := hs.of_eq rfl rfl
  unfold History.setLimit
  dsimp only
  split
  · exact hs
  · exact hlimited.trim

theorem endNotUndoable (hs : h.Substantial) (hended : h.endNotUndoable = .ok h') :
    h'.Substantial := by
  unfold History.endNotUndoable at hended
  split at hended
  · cases hended
  · cases hended
    exact clear _
  · cases hended
    exact hs.of_eq rfl rfl

theorem flagCommand (h : History) (old new : Nat) :
    ∀ c ∈ h.flagCommand old new, c.Substantial := by
  intro c hc
  unfold History.flagCommand at hc
  split at hc
  · cases hc
  · split at hc
    · rw [List.mem_singleton.1 hc]
      trivial
    · split at hc
      · rw [List.mem_singleton.1 hc]
        trivial
      · cases hc

/-- A replay is substantial if its edits are: the edits come first, then the flag, and then the
selection. -/
theorem replay {as : List Action} {edit select : Action → ReplayCommand}
    (hedit : ∀ a ∈ as, (edit a).Substantial) (hselect : ∀ a, (select a).Substantial) (h : History)
    (old new : Nat) (first : Option Action) :
    ∀ c ∈ as.map edit ++ h.flagCommand old new ++ (first.map select).toList, c.Substantial := by
  intro c hc
  rcases List.mem_append.1 hc with hc | hc
  · rcases List.mem_append.1 hc with hc | hc
    · obtain ⟨a, ha, rfl⟩ := List.mem_map.1 hc
      exact hedit a ha
    · exact flagCommand h old new c hc
  · obtain ⟨a, -, rfl⟩ := Option.map_eq_some_iff.1 (Option.mem_toList.1 hc)
    exact hselect a

theorem undo (hs : h.Substantial) {r : List ReplayCommand × History} (hundo : h.undo = .ok r) :
    (∀ c ∈ r.1, c.Substantial) ∧ r.2.Substantial := by
  unfold History.undo at hundo
  split at hundo
  · obtain rfl := Except.ok.inj hundo
    refine ⟨?_, hs.of_eq rfl rfl⟩
    dsimp only
    split
    · exact nofun
    · rename_i step hstep
      have hactions := hs.steps step (List.mem_of_getElem? hstep)
      exact replay (fun a ha => (hactions a (List.mem_reverse.1 ha)).undo)
        Action.substantial_selectionBefore h _ _ _
  · cases hundo

theorem redo (hs : h.Substantial) {r : List ReplayCommand × History} (hredo : h.redo = .ok r) :
    (∀ c ∈ r.1, c.Substantial) ∧ r.2.Substantial := by
  unfold History.redo at hredo
  split at hredo
  · obtain rfl := Except.ok.inj hredo
    refine ⟨?_, hs.of_eq rfl rfl⟩
    dsimp only
    split
    · exact nofun
    · rename_i step hstep
      have hactions := hs.steps step (List.mem_of_getElem? hstep)
      exact replay (fun a ha => (hactions a ha).redo) Action.substantial_selectionAfter h _ _ _
  · cases hredo

end Substantial
end History
end CodeBuffer
