import CodeBuffer.Proofs.Context.Faithful
import CodeBuffer.Proofs.Context.Moved

namespace CodeBuffer

open Delimiter DelimiterTable

namespace DelimiterTable

/-- After an edit, all text outside the lines from `head` to `s` is in the state in which it was
before. What old delimiters say of it they said before, or the table did. -/
structure Outlasts (T : DelimiterTable) (t : Text) (e : Edit) (head s : Nat) (t' : Text)
    (T' : DelimiterTable) : Prop where
  entries : ∀ p < T'.frontier.reach t', p < head ∨ s ≤ p →
    e.origin p < T.frontier.reach t ∧ T'.stateAt p = T.stateAt (e.origin p)
  old : ∀ p, (∃ d ∈ T'.oldEntries, d.offset ≤ p) → (∃ d ∈ T'.oldEntries, p < d.offset) →
    p < head ∨ s ≤ p →
      ((∃ d ∈ T.oldEntries, d.offset ≤ e.origin p) ∧ (∃ d ∈ T.oldEntries, e.origin p < d.offset) ∧
        stateOver none T'.oldEntries p = stateOver none T.oldEntries (e.origin p)) ∨
      (e.origin p < T.frontier.reach t ∧
        stateOver none T'.oldEntries p = T.stateAt (e.origin p))

variable {T : DelimiterTable} {t t' : Text} {keys : List PatternKey} {e : Edit} {f head s p : Nat}

theorem le_reach_of_covers {F : Frontier} {o : Nat} (ho : o ≤ t.length) (h : F.covers o = true) :
    o ≤ F.reach t := by
  cases F with
  | complete => exact ho
  | pending f => exact of_decide_eq_true h

theorem offset_le_reach (he : e.Turns t t') (hin : T.isBeyondFrontier e = false) :
    e.offset ≤ T.frontier.reach t := by
  cases hf : T.frontier with
  | complete => exact he.offset_le
  | pending f => exact Nat.le_of_lt (PlainLanguage.offset_lt_of_pending hin hf)

/-- What lies behind an edit and before the frontier lay before it. -/
theorem back_lt_reach (he : e.Turns t t') (hin : T.isBeyondFrontier e = false)
    (hp : p < (T.frontier.after e).reach t') (hstop : e.stop ≤ p) :
    e.back p < T.frontier.reach t := by
  have hlength := he.back_length
  cases hf : T.frontier with
  | complete =>
    rw [hf, Frontier.after, Frontier.reach] at hp
    rw [Frontier.reach]
    cases e <;> simp only [Edit.back, Edit.stop] at * <;> omega
  | pending f =>
    have hlt := PlainLanguage.offset_lt_of_pending hin hf
    rw [hf, Frontier.after, Frontier.reach] at hp
    rw [Frontier.reach]
    cases e with
    | insertion o n =>
      simp only [Edit.back, Edit.stop, Edit.offset, Edit.mapOffset] at *
      rw [if_pos hlt] at hp
      omega
    | deletion o n =>
      simp only [Edit.back, Edit.stop, Edit.offset, Edit.mapOffset] at *
      split at hp <;> omega

/-- The delimiters before a line tell of all text before it. -/
theorem stateOver_takeWhile (hT : Alternate 0 none T.entries) (hp : p < head) :
    stateOver none (T.entries.takeWhile (withinLines head)) p = T.stateAt p := by
  have hbehind := (hT.dropWithin head).le_offset
  have htold : stateOver none (T.entries.takeWhile (withinLines head) ++
      T.entries.dropWhile (withinLines head)) p =
        stateOver none (T.entries.takeWhile (withinLines head)) p :=
    stateOver_append_of_lt fun d hd => Nat.lt_of_lt_of_le hp (hbehind d hd)
  rw [stateAt_eq_stateOver, ← htold, List.takeWhile_append_dropWhile]

/-- An edit behind the frontier changes nothing before it. -/
theorem Sound.outlasts_truncateOld (hT : T.Sound t keys) (hf : T.frontier = .pending f)
    (hbeyond : f ≤ e.offset) (hhead : head ≤ e.offset) :
    T.Outlasts t e head s t' (T.truncateOld head) := by
  have hreach : (T.truncateOld head).frontier = .pending f := hf
  refine ⟨fun p hp _ => ?_, fun p hfirst hlast _ => .inl ?_⟩
  · rw [hreach, Frontier.reach] at hp
    rw [Edit.origin_of_lt (by omega), hf]
    exact ⟨hp, rfl⟩
  · obtain ⟨c, hc, hcp⟩ := hfirst
    obtain ⟨d, hd, hpd⟩ := hlast
    rw [oldEntries_truncateOld] at hc hd ⊢
    have hlt : d.offset < head := by simpa using List.mem_takeWhile_imp hd
    have hsub : T.oldEntries.takeWhile (fun d => decide (d.offset < head)) ⊆ T.oldEntries :=
      List.takeWhile_subset _
    obtain ⟨state, hold⟩ := hT.old
    rw [Edit.origin_of_lt (by omega)]
    exact ⟨⟨c, hsub hc, hcp⟩, ⟨d, hsub hd, hpd⟩,
      stateOver_truncate hold.pairwise (List.takeWhile_prefix _) hd hpd⟩

theorem stateAt_moved (hT : Alternate 0 none T.entries) (hhead : head ≤ e.offset)
    (hall : ∀ d ∈ T.entries.dropWhile (withinLines head), (e.map? d).isSome = true)
    (hp : p < head ∨ e.stop ≤ p) : (T.moved e head).stateAt p = T.stateAt (e.origin p) := by
  have hbehind := (hT.dropWithin head).le_offset
  have hkept : ∀ d ∈ T.entries.takeWhile (withinLines head), d.offset ≤ head :=
    fun d hd => offset_le_of_rank_le (withinLines_iff_rank.1 (List.mem_takeWhile_imp hd))
  rw [stateAt_eq_stateOver, moved]
  dsimp only
  rcases hp with hp | hp
  · rw [Edit.origin_of_lt (by omega), stateOver_append_of_lt, stateOver_takeWhile hT hp]
    intro d' hd'
    obtain ⟨d, hd, hmap⟩ := List.mem_filterMap.1 hd'
    exact Nat.lt_of_lt_of_le hp (Edit.le_offset_map? hmap hhead (hbehind d hd))
  · have hoffset := e.offset_le_stop
    have hback := Edit.offset_le_back hp
    have hkept' : ∀ d ∈ T.entries.takeWhile (withinLines head), d.offset ≤ e.back p :=
      fun d hd => (hkept d hd).trans (hhead.trans hback)
    rw [Edit.origin_of_le hp, stateOver_append fun d hd => (hkept d hd).trans (by omega),
      Edit.stateOver_filterMap hall hp, ← stateOver_append hkept',
      List.takeWhile_append_dropWhile, stateAt_eq_stateOver]

/-- A table that survives an edit says of all text what it said before. -/
theorem Sound.outlasts_moved (hT : T.Sound t keys) (he : e.Turns t t')
    (hin : T.isBeyondFrontier e = false) (hhead : head ≤ e.offset)
    (hs : s = t'.nextLineStart e.stop)
    (hall : ∀ d ∈ T.entries.dropWhile (withinLines head), (e.map? d).isSome = true)
    (hcovers : (T.frontier.after e).covers s = true) :
    T.Outlasts t e head s t' (T.moved e head) := by
  have hstop : e.stop ≤ s := hs ▸ t'.le_nextLineStart _ he.stop_le
  have hoffset := offset_le_reach he hin
  refine ⟨fun p hp hside => ⟨?_, ?_⟩, fun p hfirst hlast hside => .inl ?_⟩
  · rcases hside with hside | hside
    · rw [Edit.origin_of_lt (by omega)]
      omega
    · rw [Edit.origin_of_le (by omega)]
      exact back_lt_reach he hin hp (by omega)
  · exact stateAt_moved hT.entries hhead hall (by omega)
  · obtain ⟨c', hc', hcp⟩ := hfirst
    obtain ⟨d', hd', hpd⟩ := hlast
    obtain ⟨state, hlater⟩ := hT.old_moved he hin (hs ▸ hcovers)
    have hbehind := hlater.le_offset
    rw [oldEntries_moved] at hc' hd' ⊢
    have hle : e.stop ≤ p := by
      have hreach := hbehind c' hc'
      have hs' : s ≤ (T.frontier.after e).reach t' :=
        le_reach_of_covers (hs ▸ t'.nextLineStart_le _) hcovers
      omega
    rcases hT.old_survives he hin (hs ▸ hcovers) with ⟨-, hsome⟩ | hnone
    · obtain ⟨c, hc, hcmap⟩ := List.mem_filterMap.1 hc'
      obtain ⟨d, hd, hdmap⟩ := List.mem_filterMap.1 hd'
      rw [Edit.offset_map?_le_iff hcmap hle] at hcp
      rw [← Nat.not_le, Edit.offset_map?_le_iff hdmap hle, Nat.not_le] at hpd
      rw [Edit.origin_of_le hle]
      exact ⟨⟨c, hc, hcp⟩, ⟨d, hd, hpd⟩, Edit.stateOver_filterMap hsome hle⟩
    · rw [hnone] at hc'
      cases hc'

/-- A table that an edit cuts says of the text before the edited lines what it said before, and so
do those of its delimiters that become old of the text behind them. -/
theorem Sound.outlasts_cut (hT : T.Sound t keys) (he : e.Turns t t')
    (hin : T.isBeyondFrontier e = false) (hhead : head ≤ e.offset) (hstop : e.stop ≤ s)
    {old : Option Leftovers}
    (hold : old.elim [] (·.entries) = ((T.entries.dropWhile (withinLines head)).filterMap
      e.map?).dropWhile (withinLines s)) :
    T.Outlasts t e head s t' ⟨T.entries.takeWhile (withinLines head), old, .pending head⟩ := by
  have hoffset := offset_le_reach he hin
  refine ⟨fun p hp _ => ?_, fun p hfirst hlast _ => .inr ?_⟩
  · rw [Frontier.reach] at hp
    rw [Edit.origin_of_lt (by omega)]
    refine ⟨by omega, ?_⟩
    rw [stateAt_eq_stateOver]
    exact stateOver_takeWhile hT.entries hp
  · obtain ⟨c', hc', hcp⟩ := hfirst
    obtain ⟨d', hd', hpd⟩ := hlast
    have hrest := hT.entries.dropWithin head
    rw [oldEntries, hold, dropWhile_filterMap hstop hrest] at hc' hd' ⊢
    have hbehind := hrest.dropWithin (e.back s)
    obtain ⟨later, hlater⟩ : ∃ later, later = (T.entries.dropWhile (withinLines head)).dropWhile
      (withinLines (e.back s)) := ⟨_, rfl⟩
    rw [← hlater] at hc' hd' hbehind ⊢
    have hsuffix : later <:+ T.entries :=
      hlater ▸ (List.dropWhile_suffix _).trans (List.dropWhile_suffix _)
    have hsome : ∀ d ∈ later, (e.map? d).isSome = true := by
      intro d hd
      have hlt := hbehind.lt_rank d hd
      refine Option.isSome_iff_exists.2 (Edit.isSome_map?_of_behind hstop ?_)
      rw [← Bool.not_eq_true, withinLines_iff_rank]
      omega
    obtain ⟨c, hc, hcmap⟩ := List.mem_filterMap.1 hc'
    obtain ⟨d, hd, hdmap⟩ := List.mem_filterMap.1 hd'
    have hle : e.stop ≤ p := by
      have hrank := Edit.lt_rank_map?_behind hcmap hstop (Nat.le_refl _) (hbehind.lt_rank c hc)
      rw [Nat.sub_self, Nat.add_zero] at hrank
      have := le_offset_of_lt_rank hrank
      omega
    rw [Edit.offset_map?_le_iff hcmap hle] at hcp
    rw [← Nat.not_le, Edit.offset_map?_le_iff hdmap hle, Nat.not_le] at hpd
    rw [Edit.origin_of_le hle, Edit.stateOver_filterMap hsome hle, stateAt_eq_stateOver]
    refine ⟨?_, stateOver_of_suffix hT.entries.pairwise hsuffix hc hcp⟩
    exact Nat.lt_of_lt_of_le hpd (offset_le_of_rank_le (hT.before d (hsuffix.subset hd)))

/-- An edit before the frontier, whatever is found anew in the edited lines. -/
theorem Sound.outlasts_applyEdit (hT : T.Sound t keys) (he : e.Turns t t')
    (hin : T.isBeyondFrontier e = false) (fresh : List Delimiter) :
    T.Outlasts t e (t'.lineStartOf e.offset) (t'.nextLineStart e.stop) t'
      (T.applyEdit e (t'.lineStartOf e.offset) (t'.nextLineStart e.stop) fresh).2 := by
  have hhead : t'.lineStartOf e.offset ≤ e.offset := by
    have := t'.lineStartOf_le e.offset
    omega
  have hstop : e.stop ≤ t'.nextLineStart e.stop := t'.le_nextLineStart _ he.stop_le
  rcases T.applyEdit_cases e (t'.lineStartOf e.offset) (t'.nextLineStart e.stop) fresh with
    ⟨hall, hcovers, -, hresult⟩ | ⟨old, hresult, hold⟩ <;> rw [hresult]
  · exact hT.outlasts_moved he hin hhead rfl hall hcovers
  · exact hT.outlasts_cut he hin hhead hstop hold

end DelimiterTable

namespace Highlighter

variable {N : String → Prop} {h : Highlighter} {d d' : Document} {t t' : Text} {e : Edit} {p : Nat}

/-- Whatever an edit does to the table, the states outside the edited lines stay what they were. -/
theorem Sound.outlasts (hs : h.Sound t) (he : e.Turns t t') :
    h.table.Outlasts t e (t'.lineStartOf e.offset) (t'.nextLineStart e.stop) t'
      (h.edited t' e).table := by
  have hhead : t'.lineStartOf e.offset ≤ e.offset := by
    have := t'.lineStartOf_le e.offset
    omega
  have hstop : e.stop ≤ t'.nextLineStart e.stop := t'.le_nextLineStart _ he.stop_le
  cases hd : h.hasDelimited with
  | false =>
    -- there is nothing to know
    rw [table_edited_of_simple hd, hs.trivial_table hd]
    refine ⟨fun p hp hside => ⟨?_, rfl⟩, fun p hfirst => ?_⟩
    · rcases hside with hside | hside
      · rw [Edit.origin_of_lt (by omega)]
        have hoffset : e.offset ≤ t.length := he.offset_le
        exact Nat.lt_of_lt_of_le (by omega) hoffset
      · have hle : e.stop ≤ p := hstop.trans hside
        rw [Edit.origin_of_le hle]
        exact back_lt_reach (T := .reset true) he rfl hp hle
    · obtain ⟨c, hc, -⟩ := hfirst
      cases hc
  | true =>
    rw [table_edited hd]
    split
    · rename_i hbeyond
      cases hf : h.table.frontier with
      | complete => simp [isBeyondFrontier, hf] at hbeyond
      | pending f =>
        rw [isBeyondFrontier, hf, decide_eq_true_eq] at hbeyond
        exact hs.table.outlasts_truncateOld hf hbeyond hhead
    · rename_i hin
      rw [Bool.not_eq_true] at hin
      exact hs.table.outlasts_applyEdit he hin _

/-- An edit changes what is known of the text and what there is to do. -/
theorem edited_same (h : Highlighter) (t : Text) (e : Edit) :
    ∃ table refresh requests bufferLength announced,
      h.edited t e = { h with table, refresh, requests, bufferLength, announced } := by
  obtain ⟨refresh, announced, heq⟩ := ({ h with bufferLength := t.length }.shiftRegions
    e).refreshRange_eq (t.lineStartOf e.offset) (t.nextLineStart e.stop)
  rw [edited_eq, heq]
  cases e <;> exact ⟨_, _, _, _, _, rfl⟩

/-- What is out of date moves along with an edit, and the edited lines are. -/
theorem contains_refresh_edited (hr : h.refresh.WellFormed) (t : Text) (e : Edit) (p : Nat) :
    (h.edited t e).refresh.contains p = true ↔
      (t.lineStartOf e.offset ≤ p ∧ p < t.nextLineStart e.stop) ∨
        (e.shift h.refresh).contains p = true := by
  rw [edited_eq]
  cases e with
  | insertion o n =>
    exact contains_refreshRange (Region.wellFormed_shiftForInsertion hr o n) _ _ p
  | deletion o n =>
    exact contains_refreshRange (Region.wellFormed_shiftForDeletion hr o (o + n)) _ _ p

/-- An edit takes the tags along, and what it may have made wrong is out of date. -/
theorem Reliable.editedBy (hs : Reliable N (h, d)) (hm : d.MovedBy e d') :
    Reliable N (h.editedBy d' e) := by
  have ha : h.isAttachedTo d' = true := by
    rw [isAttachedTo, hm.id]
    exact hs.attached
  have hsound := hs.sound.edited hm.turns
  have houtlasts := hs.sound.outlasts hm.turns
  have hrefresh := contains_refresh_edited hs.sound.refresh.1 d'.text e
  have hhead := (d'.text.lineStartOf_le e.offset)
  have hstop : e.stop ≤ d'.text.nextLineStart e.stop :=
    d'.text.le_nextLineStart _ hm.turns.stop_le
  have hedited : h.editedBy d' e = (h.edited d'.text e, d') := by
    rw [Highlighter.editedBy, if_pos ha]
  rw [hedited]
  obtain ⟨table, refresh, requests, bufferLength, announced, heq⟩ := h.edited_same d'.text e
  rw [heq] at hsound houtlasts hrefresh ⊢
  dsimp only at houtlasts hrefresh
  have hclean (p : Nat) (hp : refresh.contains p = false) :
      (p < d'.text.lineStartOf e.offset ∨ d'.text.nextLineStart e.stop ≤ p) ∧ e.Carries p ∧
        h.refresh.contains (e.origin p) = false := by
    rw [← Bool.not_eq_true, hrefresh, not_or] at hp
    have hside : p < d'.text.lineStartOf e.offset ∨ d'.text.nextLineStart e.stop ≤ p := by omega
    have hcarries : e.Carries p := by
      rw [Edit.Carries]
      omega
    rw [Edit.contains_shift hs.sound.refresh.1 hcarries, Bool.not_eq_true] at hp
    exact ⟨hside, hcarries, hp.2⟩
  have hshows (p : Nat) (hcarries : e.Carries p) (state : Option PatternKey)
      (hp : Shows N (h, d) (e.origin p) state) :
      Shows N ({ h with table, refresh, requests, bufferLength, announced }, d') p state := by
    intro n hn hreserved
    exact (hm.marks hs.tagged.tidy n p hcarries).trans (hp n hn hreserved)
  refine ⟨⟨ha, hsound, ⟨hm.tidy hs.tagged.tidy, fun c hc => ?_, fun c hc => ?_,
    fun n hn p hp => ?_⟩, .inl hs.settled, fun p hp hp' => ?_, fun p hfirst hlast hp => ?_⟩,
      hs.settled⟩
  · obtain ⟨hname, q, hq, hid, hstyle⟩ := hs.tagged.pattern c hc
    exact ⟨(hm.relaid.name c.2).trans hname, q, hq, hid,
      fun hn => (hm.relaid.style c.2).trans (hstyle hn)⟩
  · exact (hm.relaid.name c.2).trans (hs.tagged.context c hc)
  · obtain ⟨q, hq⟩ := hm.source hs.tagged.tidy n p hp
    obtain ⟨id, hid, hname⟩ := hs.tagged.own n hn q hq
    exact ⟨id, hid, (hm.relaid.name id).trans hname⟩
  · obtain ⟨hside, hcarries, hclean'⟩ := hclean p hp'
    obtain ⟨hreach, hstate⟩ := houtlasts.entries p hp hside
    apply hshows p hcarries
    dsimp only
    rw [hstate]
    exact hs.painted _ hreach hclean'
  · obtain ⟨hside, hcarries, hclean'⟩ := hclean p hp
    apply hshows p hcarries
    rcases houtlasts.old p hfirst hlast hside with ⟨hfirst', hlast', hstate⟩ | ⟨hreach, hstate⟩
    · dsimp only
      rw [hstate]
      exact hs.held _ hfirst' hlast' hclean'
    · dsimp only
      rw [hstate]
      exact hs.painted _ hreach hclean'

end Highlighter
end CodeBuffer
