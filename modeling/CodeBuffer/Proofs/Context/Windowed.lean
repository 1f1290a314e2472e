import CodeBuffer.Proofs.Context.Edited

namespace CodeBuffer

open Delimiter DelimiterTable PlainLanguage

namespace DelimiterTable

variable {T T' T'' : DelimiterTable} {t : Text}

/-- What is found can be taken in bit by bit, until the old table takes over. -/
theorem pushAll_append (T : DelimiterTable) (start : Nat) (xs ys : List Delimiter) :
    T.pushAll start (xs ++ ys) =
      if (T.pushAll start xs).1 then T.pushAll start xs
      else (T.pushAll start xs).2.pushAll start ys := by
  induction xs generalizing T with
  | nil => rfl
  | cons x xs ih =>
    rw [List.cons_append, pushAll, pushAll]
    split
    · rename_i hnone
      cases ys with
      | nil => simp [pushAll]
      | cons y ys => simp [pushAll, hnone]
    · cases hpush : T.push x start with
      | mk taken T' =>
        cases taken with
        | true => rfl
        | false => exact ih T'

/-- Without the old table taking over, what is found is appended. -/
theorem pushAll_of_not {start : Nat} {found : List Delimiter}
    (h : (T.pushAll start found).1 = false) :
    (T.pushAll start found).2.entries = T.entries ++ found ∧
      (T.pushAll start found).2.oldEntries <:+ T.oldEntries := by
  rcases T.pushAll_cases start found with
    ⟨_, _, _, _, _, _, _, -, -, -, -, hpush⟩ | ⟨old, hold, hpush⟩
  · rw [hpush] at h
    cases h
  · rw [hpush]
    exact ⟨rfl, suffix_elim hold⟩

/-- A batch that finds more behind an offset leaves the states before it. -/
theorem pushAll_behind (start : Nat) {stop q : Nat} {more : List Delimiter}
    (hold : T.oldEntries.Pairwise fun d e => d.offset ≤ e.offset)
    (hmore : ∀ d ∈ more, q ≤ d.offset) (hstop : stop ≤ t.length) (hq : q ≤ stop) :
    let r := T.pushAll start more
    let T' := if r.1 then r.2 else r.2.finishBatch stop (decide (t.length ≤ stop))
    q ≤ T'.frontier.reach t ∧ ∀ p < q, T'.stateAt p = T.stateAt p := by
  simp only [stateAt_eq_stateOver]
  rcases T.pushAll_cases start more with
    ⟨before, d, behind, cs, rest, es, e, hbefore, hsplit, hes, -, hpush⟩ | ⟨old, -, hpush⟩
  · have hsuffix : (d :: rest) <:+ T.oldEntries := ⟨cs, hsplit.symm⟩
    have hd : q ≤ d.offset := hmore d (by simp [hbefore])
    have hrest (c : Delimiter) (hc : c ∈ d :: rest) : q ≤ c.offset := by
      rcases List.mem_cons.1 hc with rfl | hc
      · exact hd
      · have hsorted := hold.sublist hsuffix.sublist
        exact hd.trans ((List.pairwise_cons.1 hsorted).1 c hc)
    have hall (c : Delimiter) (hc : c ∈ before ++ d :: rest) : q ≤ c.offset := by
      rcases List.mem_append.1 hc with hc | hc
      · exact hmore c (by simp [hbefore, hc])
      · exact hrest c hc
    have he : q ≤ e.offset := by
      have hlast := congrArg List.getLast? hes
      rw [List.getLast?_append_cons, List.getLast?_append_cons] at hlast
      exact hrest e (List.mem_of_getLast? hlast)
    rw [hpush]
    refine ⟨he, fun p hp => ?_⟩
    dsimp only
    rw [if_pos rfl, stateOver_init (Nat.lt_of_lt_of_le hp he), ← hes, List.append_assoc]
    apply stateOver_append_of_lt
    intro c hc
    exact Nat.lt_of_lt_of_le hp (hall c hc)
  · rw [hpush]
    dsimp only
    rw [if_neg Bool.false_ne_true, reach_finishBatch _ hstop]
    refine ⟨hq, fun p hp => ?_⟩
    apply stateOver_append_of_lt
    intro c hc
    exact Nat.lt_of_lt_of_le hp (hmore c hc)

/-- A table of the same text that is analysed at least as far, and says the same as far as both
are. -/
structure Extends (t : Text) (T T' : DelimiterTable) : Prop where
  reach_le : T.frontier.reach t ≤ T'.frontier.reach t
  stateAt_eq : ∀ p < T.frontier.reach t, T'.stateAt p = T.stateAt p

theorem Extends.refl (t : Text) (T : DelimiterTable) : T.Extends t T :=
  ⟨Nat.le_refl _, fun _ _ => rfl⟩

theorem Extends.trans (h : T.Extends t T') (h' : T'.Extends t T'') : T.Extends t T'' := by
  refine ⟨h.reach_le.trans h'.reach_le, fun p hp => ?_⟩
  rw [h'.stateAt_eq p (Nat.lt_of_lt_of_le hp h.reach_le)]
  exact h.stateAt_eq p hp

end DelimiterTable

namespace Highlighter

variable {L : PlainLanguage} {h g : Highlighter} {d d' : Document} {t : Text} {n p : Nat}

/-- What a batch finds. -/
def found (h : Highlighter) (t : Text) (f needed : Nat) : List Delimiter :=
  (Chunk.ofRange t f (h.batchStop t f needed) h.escape).collect (delimitedOf h.patterns) f
    h.table.lastState

/-- A batch takes in what it finds. -/
theorem table_build {f : Nat} (hf : h.table.frontier = .pending f) (needed : Nat) :
    (h.build t needed).table =
      let r := h.table.pushAll f (h.found t f needed)
      let stop := h.batchStop t f needed
      if r.1 then r.2 else r.2.finishBatch stop (decide (t.length ≤ stop)) := by
  simp only [build, hf, table_refreshRange, table_reestimate, found]
  split
  · rename_i hpush
    simp [hpush]
  · rename_i hpush
    simp [hpush]

theorem batchStop_le (h : Highlighter) (t : Text) (f needed : Nat) :
    h.batchStop t f needed ≤ t.length := t.nextLineStart_le _

/-- A batch goes as far as is needed. -/
theorem needed_le_batchStop (h : Highlighter) (f : Nat) (hn : n ≤ t.length) :
    n ≤ h.batchStop t f n := by
  have hle := t.le_nextLineStart (min (max (f + h.batchSize) n) t.length) (Nat.min_le_right _ _)
  rw [batchStop]
  omega

/-- A batch that goes further finds the same, and more behind it. -/
theorem found_prefix (hL : L.SpokenBy h) (hL' : L.SpokenBy g) (htable : g.table = h.table) {f : Nat}
    (hf : f ≤ t.length) (n n' : Nat) (hle : h.batchStop t f n ≤ g.batchStop t f n') :
    ∃ more, g.found t f n' = h.found t f n ++ more ∧
      ∀ d ∈ more, h.batchStop t f n ≤ d.offset := by
  have hseam : t.IsSeam (h.batchStop t f n) := t.isSeam_nextLineStart _
  have hseam' : t.IsSeam (g.batchStop t f n') := t.isSeam_nextLineStart _
  obtain ⟨hstart, -⟩ := h.le_batchStop n hf
  have hseen : L.Explores t f h.table.lastState (h.found t f n) (h.batchStop t f n) := by
    rw [found, hL.2]
    exact L.explores_collect hL.1 hstart (h.batchStop_le t f n) hseam _
  have hseen' : L.Explores t f h.table.lastState (g.found t f n') (g.batchStop t f n') := by
    rw [found, hL'.2, htable]
    exact L.explores_collect hL'.1 (hstart.trans hle) (g.batchStop_le t f n') hseam' _
  obtain ⟨hfirst, hmore⟩ := hseen'.split (clean_of_isSeam hseam) hstart hle
  refine ⟨(g.found t f n').dropWhile (withinLines (h.batchStop t f n)), ?_, fun d hd => ?_⟩
  · rw [hseen.unique hfirst]
    exact List.takeWhile_append_dropWhile.symm
  · have hout := (hmore.within d hd).1
    by_contra hlt
    rw [withinLines_of_offset_lt (Nat.lt_of_not_le hlt)] at hout
    cases hout

theorem Sound.extends_build (hs : h.Sound t) (needed : Nat) :
    h.table.Extends t (h.build t needed).table := by
  obtain ⟨-, hprogress⟩ := sound_build hs.table needed
  refine ⟨?_, fun p hp => stateAt_build_of_lt hs.table hp⟩
  rcases hprogress with hc | hlt
  · rw [hc]
    exact hs.table.reach_le
  · exact Nat.le_of_lt hlt

theorem Sound.extends_buildUntil (hs : h.Sound t) (o fuel : Nat) :
    h.table.Extends t (h.buildUntil t o fuel).table := by
  induction fuel generalizing h with
  | zero => exact .refl t _
  | succ fuel ih =>
    have hbuilt := hs.extends_build o
    rw [buildUntil]
    split
    · exact .refl t _
    · dsimp only
      split
      · exact hbuilt
      · exact hbuilt.trans (ih (hs.build o))

/-- A batch up to the end of the text comes to the same as a shorter one, or goes further. -/
theorem Sound.build_agrees (hs : h.Sound t) (hL : L.SpokenBy h) (hL' : L.SpokenBy g)
    (htable : g.table = h.table) (hn : n ≤ t.length) :
    (g.build t t.length).table = (h.build t n).table ∨
      (h.build t n).table.frontier.covers n = true ∧
        (h.build t n).table.Extends t (g.build t t.length).table := by
  cases hf : h.table.frontier with
  | complete =>
    left
    have hf' : g.table.frontier = .complete := htable ▸ hf
    rw [Highlighter.build, Highlighter.build, hf, hf']
    exact htable
  | pending f =>
    have hf' : g.table.frontier = .pending f := htable ▸ hf
    have hfle : f ≤ t.length := by
      have := hs.table.reach_le
      rwa [hf] at this
    have hstop : h.batchStop t f n ≤ t.length := h.batchStop_le t f n
    have hstop' : g.batchStop t f t.length = t.length := g.batchStop_length t f
    obtain ⟨more, hfound, hmore⟩ :=
      found_prefix hL hL' htable hfle n t.length (by rwa [hstop'])
    rw [table_build hf, table_build hf', hfound, htable, pushAll_append, hstop']
    cases hover : (h.table.pushAll f (h.found t f n)).1 with
    | true => simp [hover]
    | false =>
      right
      obtain ⟨hentries, hsuffix⟩ := pushAll_of_not hover
      obtain ⟨state, hold⟩ := hs.table.old
      obtain ⟨hreach, hstates⟩ := pushAll_behind f (hold.pairwise.sublist hsuffix.sublist) hmore
        (Nat.le_refl t.length) hstop
      simp only [hover, Bool.false_eq_true, if_false]
      refine ⟨?_, ?_, fun p hp => ?_⟩
      · exact covers_finishBatch _ _ (h.needed_le_batchStop f hn)
      · rw [reach_finishBatch _ hstop]
        exact hreach
      · rw [reach_finishBatch _ hstop] at hp
        exact hstates p hp

theorem Sound.extends_catchUp (hs : h.Sound t) (needed : Nat) :
    h.table.Extends t (h.catchUp t needed).table := by
  have hstart : h.table.Extends t (if h.owesLast t then h.build t needed else h).table := by
    split
    · exact hs.extends_build needed
    · exact .refl t _
  exact hstart.trans ((hs.catchUp_start needed).extends_buildUntil needed _)

/-- Batches up to the end of the text go at least as far as batches up to some offset, and find the
same. -/
theorem Sound.buildUntil_extends (hs : h.Sound t) (hs' : g.Sound t) (hL : L.SpokenBy h)
    (hL' : L.SpokenBy g) (htable : g.table = h.table) (hn : n ≤ t.length) (fuel : Nat)
    {fuel' : Nat} (hfuel : g.debt t ≤ fuel') :
    (h.buildUntil t n fuel).table.Extends t (g.buildUntil t t.length fuel').table := by
  induction fuel generalizing h g fuel' with
  | zero =>
    rw [buildUntil, ← htable]
    exact hs'.extends_buildUntil t.length fuel'
  | succ fuel ih =>
    cases hc : h.table.frontier.covers n with
    | true =>
      rw [buildUntil_of_covers h t hc, ← htable]
      exact hs'.extends_buildUntil t.length fuel'
    | false =>
      have hc' : g.table.frontier.covers t.length = false := by
        rw [htable, ← Bool.not_eq_true]
        intro hall
        rw [covers_mono hn hall] at hc
        cases hc
      obtain ⟨f, hf⟩ : ∃ f, g.table.frontier = .pending f := by
        cases hf : g.table.frontier with
        | complete =>
          rw [hf] at hc'
          cases hc'
        | pending f => exact ⟨f, rfl⟩
      have hdebt := debt_build hs' hf t.length
      obtain ⟨fuel', rfl⟩ : ∃ k, fuel' = k + 1 := Nat.exists_eq_add_one.2 (by omega)
      rw [hs.buildUntil_succ hc, hs'.buildUntil_succ hc']
      have hsetup := (h.sameSetup_build t n).spokenBy hL
      have hsetup' := (g.sameSetup_build t t.length).spokenBy hL'
      rcases hs.build_agrees hL hL' htable hn with hsame | ⟨hdone, hmore⟩
      · exact ih (hs.build n) (hs'.build t.length) hsetup hsetup' hsame (by omega)
      · rw [buildUntil_of_covers _ t hdone]
        exact hmore.trans ((hs'.build t.length).extends_buildUntil t.length fuel')

/-- To wait for all of the text is to wait for more than a part of it. -/
theorem Sound.catchUp_extends (hs : h.Sound t) (hL : L.SpokenBy h) (hn : n ≤ t.length) :
    (h.catchUp t n).table.Extends t (h.catchUp t t.length).table := by
  have hfuel (g : Highlighter) : g.debt t ≤ t.length + 2 := (g.debt_le t).trans (Nat.le_succ _)
  have hsetup (needed : Nat) := (h.sameSetup_build t needed).spokenBy hL
  unfold catchUp
  split
  · rcases hs.build_agrees hL hL rfl hn with hsame | ⟨hdone, hmore⟩
    · exact (hs.build n).buildUntil_extends (hs.build t.length) (hsetup n) (hsetup t.length) hsame
        hn _ (hfuel _)
    · rw [buildUntil_of_covers _ t hdone]
      exact hmore.trans ((hs.build t.length).extends_buildUntil t.length _)
  · exact hs.buildUntil_extends hs hL hL rfl hn _ (hfuel h)

/-! Windows -/

theorem lineBoundary_le (t : Text) (o : Nat) : t.lineBoundary o ≤ t.length :=
  (isSeam_lineBoundary t o).2

/-- What is known of a text stays known while someone waits for a part of it. -/
theorem Sound.extends_updateHighlight (hs : h.Sound d.text) (ha : h.isAttachedTo d = true)
    (start stop : Nat) :
    h.table.Extends d.text (h.updateHighlight d start stop true).1.table := by
  rw [updateHighlight_eq_catchUp ha, (relieved_ensureHighlighted _ d _ _).table]
  exact hs.extends_catchUp _

/-- Who waits for a window of a text is told of it what one who waits for all of it is told. -/
theorem Sound.updateHighlight_extends (hs : h.Sound d.text) (hL : L.SpokenBy h)
    (ha : h.isAttachedTo d = true) (hd : d.SameButTags d') (start stop : Nat) :
    (h.updateHighlight d start stop true).1.table.Extends d.text
      (h.updateHighlight d' 0 d'.length true).1.table := by
  have ha' : h.isAttachedTo d' = true := by
    rw [isAttachedTo, hd.id_eq]
    exact ha
  have hall : d'.text.lineBoundary (min d'.length d'.length) = d.text.length := by
    rw [Nat.min_self, Document.length, Text.lineBoundary_length, hd.text_eq]
  rw [updateHighlight_eq_catchUp ha, updateHighlight_eq_catchUp ha', hall,
    (relieved_ensureHighlighted _ d _ _).table, (relieved_ensureHighlighted _ d' _ _).table,
    hd.text_eq]
  exact hs.catchUp_extends hL (lineBoundary_le d.text _)

theorem UpToDate.buildUntil (hp : h.UpToDate t p) (hs : h.Sound t) (o fuel : Nat) :
    (h.buildUntil t o fuel).UpToDate t p := by
  induction fuel generalizing h with
  | zero => exact hp
  | succ fuel ih =>
    have hbuilt := hp.build hs o
    rw [Highlighter.buildUntil]
    split
    · exact hp
    · dsimp only
      split
      · exact hbuilt
      · exact ih hbuilt (hs.build o)

theorem UpToDate.catchUp (hp : h.UpToDate t p) (hs : h.Sound t) (needed : Nat) :
    (h.catchUp t needed).UpToDate t p := by
  have hstart : (if h.owesLast t then h.build t needed else h).UpToDate t p := by
    split
    · exact hp.build hs needed
    · exact hp
  exact hstart.buildUntil (hs.catchUp_start needed) needed _

/-- What is up to date stays so while someone waits for another part of the text. -/
theorem UpToDate.updateHighlight (hp : h.UpToDate d.text p) (hs : h.Sound d.text)
    (ha : h.isAttachedTo d = true) (start stop : Nat) :
    (h.updateHighlight d start stop true).1.UpToDate d.text p := by
  rw [updateHighlight_eq_catchUp ha]
  generalize d.text.lineBoundary (min stop d.length) = needed
  obtain ⟨hclean, hreach⟩ := hp.catchUp hs needed
  have hr := relieved_ensureHighlighted (h.catchUp d.text needed) d (min start (min stop d.length))
    (min stop d.length)
  refine ⟨?_, ?_⟩
  · rw [← Bool.not_eq_true] at hclean ⊢
    intro hdirty
    exact hclean (hr.refresh.2 p hdirty)
  · rw [hr.table]
    exact hreach

/-- Who waits for a window finds all of it up to date. -/
theorem Sound.upToDate_window (hs : h.Sound d.text) (ha : h.isAttachedTo d = true)
    {start stop : Nat} (hlo : start ≤ p) (hhi : p < min stop d.length) :
    (h.updateHighlight d start stop true).1.UpToDate d.text p := by
  obtain ⟨hc, hclean⟩ := updateHighlight_synchronous hs ha start stop
  refine ⟨hclean p hlo hhi, ?_⟩
  exact Nat.lt_of_lt_of_le hhi (le_reach_of_covers (Nat.min_le_right _ _) hc)

end Highlighter
end CodeBuffer
