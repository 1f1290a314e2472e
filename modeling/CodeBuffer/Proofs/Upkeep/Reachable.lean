import CodeBuffer.Proofs.Upkeep.Tuning

namespace CodeBuffer

open Delimiter DelimiterTable

namespace Highlighter

/-- A highlighter that is attached to no document and knows nothing. -/
structure Idle (h : Highlighter) : Prop where
  attached : h.attached = none
  table : h.table = .reset !h.hasDelimited
  refresh : h.refresh = .empty
  requests : h.requests = .empty

/-- A highlighter that is in order for the document that it is attached to, if any. -/
def KeepsUp (s : Work) : Prop := s.1.Idle ∨ s.1.attached = some s.2.id ∧ s.1.Sound s.2.text

variable {h h' : Highlighter} {d : Document}

theorem refreshAll_of_idle (ha : h.attached = none) : h.refreshAll = h := by
  rw [refreshAll, isAttached, ha]
  rfl

theorem KeepsUp.sound (hs : KeepsUp (h, d)) (ha : h.isAttachedTo d = true) : h.Sound d.text := by
  rcases hs with hi | ⟨-, hs⟩
  · rw [isAttachedTo, hi.attached] at ha
    cases ha
  · exact hs

theorem keepsUp_of_attached {h' : Highlighter} {d' : Document} (ha : h.isAttachedTo d = true)
    (hsame : h'.attached = h.attached) (hd : d.SameButTags d') (hs : h'.Sound d.text) :
    KeepsUp (h', d') := by
  refine .inr ⟨?_, ?_⟩
  · rw [hsame, hd.id_eq]
    exact beq_iff_eq.1 ha
  · rw [hd.text_eq]
    exact hs

variable [PatternEngine]

/-- What becomes of a highlighter that is told of every edit of a document while it is attached to
it. The size of the batches may change at any time, and what the clock will say of them, and so may
all of the document but its text. -/
inductive Step : Work → Work → Prop where
  | tune (h : Highlighter) (d : Document) (c : Tuning) : Step (h, d) (h.tune c, d)
  | resize (h : Highlighter) (d : Document) (batchSize : Nat) (estimates : List Nat) :
      Step (h, d) ({ h with batchSize, estimates }, d)
  | attach (h : Highlighter) (d : Document) : Step (h, d) (h.attach d)
  | detach (h : Highlighter) (d : Document) : Step (h, d) (h.detach d)
  | edit {h : Highlighter} {d d' : Document} {e : Edit} (he : e.Turns d.text d'.text)
      (hid : d'.id = d.id) : Step (h, d) (h.editedBy d' e)
  | unwatched {h : Highlighter} (hnone : h.attached = none) (d d' : Document) : Step (h, d) (h, d')
  | annotate (h : Highlighter) {d d' : Document} (htext : d'.text = d.text) (hid : d'.id = d.id) :
      Step (h, d) (h, d')
  | syncTags (h : Highlighter) (d : Document) : Step (h, d) (h.syncTags d)
  | schemeChanged (h : Highlighter) (d : Document) : Step (h, d) (h.schemeChanged d)
  | updateHighlight (h : Highlighter) (d : Document) (start stop : Nat) (synchronous : Bool) :
      Step (h, d) (h.updateHighlight d start stop synchronous)
  | runIdleSlice (h : Highlighter) (d : Document) : Step (h, d) (h.runIdleSlice d).2

/-- The states that a highlighter without patterns comes to. -/
inductive Reachable : Work → Prop where
  | fresh (config : BatchConfig) (d : Document) : Reachable (ofConfig config, d)
  | step {s s' : Work} (hs : Reachable s) (hstep : Step s s') : Reachable s'

variable {s s' : Work}

theorem Sound.tune {t : Text} (hs : h.Sound t) (c : Tuning) : (h.tune c).Sound t := by
  obtain ⟨g, hg, hdone⟩ := h.tune_cases c
  have hrefresh : g.refresh.Below t.length := hg.refresh ▸ hs.refresh
  have hrequests : g.requests.Below t.length := hg.requests ▸ hs.requests
  rcases hdone with hdone | ⟨hsame, hdone⟩
  · rw [hdone]
    exact sound_invalidateAll hrefresh hrequests (hg.bufferLength.trans hs.bufferLength)
  · have hkept : g.Sound t := by
      refine hs.relieved ⟨hsame, hg.attached, hg.table, hg.bufferLength, ?_, ?_⟩
      · rw [hg.refresh]
        exact .refl _
      · rw [hg.requests]
        exact .refl _
    rcases hdone with hdone | hdone <;> rw [hdone]
    · exact hkept
    · exact hkept.refreshAll

theorem Idle.tune (hi : h.Idle) (c : Tuning) : (h.tune c).Idle := by
  obtain ⟨g, hg, hdone⟩ := h.tune_cases c
  have ha : g.attached = none := hg.attached.trans hi.attached
  have hrefresh := hg.refresh.trans hi.refresh
  have hrequests := hg.requests.trans hi.requests
  rcases hdone with hdone | ⟨hsame, hdone⟩
  · have hvoid : h.tune c = { g with table := .reset !g.hasDelimited } :=
      hdone.trans (refreshAll_of_idle (h := { g with table := .reset !g.hasDelimited }) ha)
    rw [hvoid]
    exact ⟨ha, rfl, hrefresh, hrequests⟩
  · rw [refreshAll_of_idle ha, or_self] at hdone
    have hdelimited : g.hasDelimited = h.hasDelimited := by
      rw [Bool.eq_iff_iff, ← not_iff_not, Bool.not_eq_true, Bool.not_eq_true,
        hasDelimited_eq_false_iff, hasDelimited_eq_false_iff, hsame]
    rw [hdone]
    refine ⟨ha, ?_, hrefresh, hrequests⟩
    rw [hg.table, hi.table, hdelimited]

/-- A step keeps a highlighter in order. -/
theorem Step.keepsUp (hstep : Step s s') (hs : KeepsUp s) : KeepsUp s' := by
  cases hstep with
  | tune h d c =>
    rcases hs with hi | ⟨ha, hs⟩
    · exact .inl (hi.tune c)
    · exact .inr ⟨(attached_tune h c).trans ha, hs.tune c⟩
  | resize h d batchSize estimates =>
    rcases hs with hi | ⟨ha, hs⟩
    · exact .inl ⟨hi.attached, hi.table, hi.refresh, hi.requests⟩
    · exact .inr ⟨ha, hs.table, hs.trivial_table, hs.refresh, hs.requests, hs.bufferLength⟩
  | attach h d =>
    obtain ⟨hsound, ha⟩ := h.sound_attach d
    have hd : d.SameButTags (h.attach d).2 := (painted_resolveTags _ d).document
    exact .inr ⟨by rw [hd.id_eq, ha], by rw [hd.text_eq]; exact hsound⟩
  | detach h d =>
    exact iteInduction (motive := KeepsUp) (fun _ => .inl ⟨rfl, rfl, rfl, rfl⟩) (fun _ => hs)
  | @edit h d d' e he hid =>
    refine iteInduction (motive := fun g => KeepsUp (g, d')) (fun ha => ?_) (fun ha => ?_)
    · have ha' : h.isAttachedTo d = true := by rwa [isAttachedTo, ← hid]
      exact keepsUp_of_attached ha (h.sameSetup_edited d'.text e).attached (.refl d')
        ((hs.sound ha').edited he)
    · rcases hs with hi | ⟨ha', -⟩
      · exact .inl hi
      · rw [isAttachedTo, show h.attached = some d.id from ha', hid] at ha
        simp at ha
  | unwatched hnone d d' =>
    rcases hs with hi | ⟨ha, -⟩
    · exact .inl hi
    · cases hnone.symm.trans ha
  | annotate h htext hid =>
    rcases hs with hi | ⟨ha, hs⟩
    · exact .inl hi
    · exact .inr ⟨by rw [hid]; exact ha, by rw [htext]; exact hs⟩
  | syncTags h d =>
    refine iteInduction (motive := KeepsUp) (fun ha => ?_) (fun _ => hs)
    have hr := Relieved.of_sameButTags (h.sameButTags_resolveTags d)
    exact keepsUp_of_attached ha hr.attached (h.painted_resolveTags d).document
      ((hs.sound ha).relieved hr)
  | schemeChanged h d =>
    refine iteInduction (motive := fun g => KeepsUp (g, d)) (fun ha => ?_) (fun _ => hs)
    have hr : h.Relieved (h.announce 0 h.bufferLength) := ⟨rfl, rfl, rfl, rfl, .refl _, .refl _⟩
    exact keepsUp_of_attached ha rfl (.refl d) ((hs.sound ha).relieved hr)
  | updateHighlight h d start stop synchronous =>
    by_cases ha : h.isAttachedTo d = true
    · obtain ⟨needs, hpainted⟩ := h.updateHighlight_eq d start stop synchronous
      exact keepsUp_of_attached ha
        (hpainted.setup.attached.trans (h.sameSetup_buildAll d.text needs).attached)
        hpainted.document ((hs.sound ha).updateHighlight start stop synchronous)
    · rw [Highlighter.updateHighlight, if_neg ha]
      exact hs
  | runIdleSlice h d =>
    by_cases ha : h.isAttachedTo d = true
    · obtain ⟨needs, hpainted⟩ := h.runIdleSlice_eq d
      exact keepsUp_of_attached ha
        (hpainted.setup.attached.trans (h.sameSetup_buildAll d.text needs).attached)
        hpainted.document (hs.sound ha).runIdleSlice
    · rw [Highlighter.runIdleSlice, if_neg ha]
      exact hs

theorem Reachable.keepsUp (hs : Reachable s) : KeepsUp s := by
  induction hs with
  | fresh config d => exact .inl ⟨rfl, rfl, rfl, rfl⟩
  | step _ hstep ih => exact hstep.keepsUp ih

theorem Reachable.tuneAll (hs : Reachable (h, d)) (cs : List Tuning) :
    Reachable (h.tuneAll cs, d) := by
  induction cs generalizing h with
  | nil => exact hs
  | cons c cs ih => exact ih (hs.step (.tune h d c))

end Highlighter
end CodeBuffer
