import CodeBuffer.Proofs.Context.Dyes
import CodeBuffer.Proofs.Painting.Retuned

namespace CodeBuffer

open Delimiter DelimiterTable

namespace Highlighter

/-- The reserved names in `N` are on an offset of a document as they are on text in a state. -/
def Shows (N : String → Prop) (s : Work) (p : Nat) (state : Option PatternKey) : Prop :=
  ∀ n, N n → s.1.Reserves n → (s.2.tags.Marks n p ↔ s.1.Dyes n state)

/-- Between the first and the last of some delimiters, all that is not out of date is tagged as they
say. -/
def Bears (N : String → Prop) (s : Work) (ds : List Delimiter) : Prop :=
  ∀ p, (∃ d ∈ ds, d.offset ≤ p) → (∃ d ∈ ds, p < d.offset) → s.1.refresh.contains p = false →
    Shows N s p (stateOver none ds p)

/-- A highlighter that is attached to a document and has its tags, those of names in `N`, where its
table says, but for what is out of date. This holds of what is analysed, and of what old delimiters
enclose. -/
structure Faithful (N : String → Prop) (s : Work) : Prop where
  attached : s.1.isAttachedTo s.2 = true
  sound : s.1.Sound s.2.text
  tagged : TaggedIn N s
  stale : s.1.staleTags = [] ∨ ∀ p < s.2.text.length, s.1.refresh.contains p = true
  painted : ∀ p < s.1.table.frontier.reach s.2.text, s.1.refresh.contains p = false →
    Shows N s p (s.1.table.stateAt p)
  held : Bears N s s.1.table.oldEntries

/-- No tag waits to be cleared. -/
structure Reliable (N : String → Prop) (s : Work) : Prop extends Faithful N s where
  settled : s.1.staleTags = []

variable {N : String → Prop} {h g : Highlighter} {d : Document} {s s' : Work} {p : Nat}
  {state : Option PatternKey} {ds es : List Delimiter}

theorem Shows.congr (hs : Shows N s p state) (hpatterns : s'.1.patterns = s.1.patterns)
    (hmarks : ∀ n, N n → (s'.2.tags.Marks n p ↔ s.2.tags.Marks n p)) : Shows N s' p state := by
  intro n hn hreserved
  have hreserved' : s.1.Reserves n := by
    rw [Reserves, ← hpatterns]
    exact hreserved
  rw [hmarks n hn, dyes_congr hpatterns]
  exact hs n hn hreserved'

theorem Bears.suffix (hs : Bears N s ds) (hds : ds.Pairwise fun d e => d.offset ≤ e.offset)
    (hes : es <:+ ds) : Bears N s es := by
  rintro p ⟨d, hd, hdp⟩ ⟨e, he, hpe⟩ hclean
  rw [stateOver_of_suffix hds hes hd hdp]
  exact hs p ⟨d, hes.subset hd, hdp⟩ ⟨e, hes.subset he, hpe⟩ hclean

namespace Faithful

theorem entries_sorted (hs : Faithful N s) :
    s.1.table.entries.Pairwise fun d e => d.offset ≤ e.offset := hs.sound.table.entries.pairwise

theorem old_sorted (hs : Faithful N s) :
    s.1.table.oldEntries.Pairwise fun d e => d.offset ≤ e.offset := by
  obtain ⟨state, hold⟩ := hs.sound.table.old
  exact hold.pairwise

/-- Old delimiters lie behind what is analysed. -/
theorem reach_le_old (hs : Faithful N s) :
    ∀ d ∈ s.1.table.oldEntries, s.1.table.frontier.reach s.2.text ≤ d.offset := by
  obtain ⟨state, hold⟩ := hs.sound.table.old
  exact hold.le_offset

theorem old_le_length (hs : Faithful N s) :
    ∀ d ∈ s.1.table.oldEntries, d.offset ≤ s.2.text.length :=
  fun d hd => offset_le_of_rank_le (hs.sound.table.old_before d hd)

/-- A batch marks as out of date what it analyses itself. What it takes over is tagged. -/
theorem build (hs : Faithful N s) (needed : Nat) :
    Faithful N (s.1.build s.2.text needed, s.2) := by
  obtain ⟨h, d⟩ := s
  dsimp only
  cases hf : h.table.frontier with
  | complete =>
    rw [Highlighter.build, hf]
    exact hs
  | pending f =>
    have hsound := hs.sound.build needed
    have hrefresh (p : Nat) : (h.build d.text needed).refresh.contains p = true ↔
        (f ≤ p ∧ p < h.batchStop d.text f needed) ∨ h.refresh.contains p = true :=
      contains_refresh_build hs.sound.refresh.1 hf needed p
    have hold := (h.oldEntries_build d.text needed)
    have hlt (p : Nat) (hp : p < f) : (h.build d.text needed).table.stateAt p =
        h.table.stateAt p := by
      apply stateAt_build_of_lt hs.sound.table
      rwa [hf]
    have hle (p : Nat) := @stateAt_build_of_le h d.text f needed p hs.sound.table hf
    obtain ⟨table, refresh, batchSize, estimates, announced, hbuilt⟩ := h.build_same d.text needed
    rw [hbuilt] at hsound hrefresh hold hlt hle ⊢
    have hclean (p : Nat) (hp : refresh.contains p = false) :
        (p < f ∨ h.batchStop d.text f needed ≤ p) ∧ h.refresh.contains p = false := by
      rw [← Bool.not_eq_true, hrefresh, not_or, Bool.not_eq_true] at hp
      exact ⟨by omega, hp.2⟩
    have hshows (p : Nat) (state : Option PatternKey) (hp : Shows N (h, d) p state) :
        Shows N ({ h with table, refresh, batchSize, estimates, announced }, d) p state :=
      hp.congr rfl fun n _ => Iff.rfl
    have htagged : TaggedIn N ({ h with table, refresh, batchSize, estimates, announced }, d) :=
      ⟨hs.tagged.tidy, hs.tagged.pattern, hs.tagged.context, hs.tagged.own⟩
    refine ⟨hs.attached, hsound, htagged, ?_, fun p hp hp' => ?_, fun p hfirst hlast hp => ?_⟩
    · exact hs.stale.imp_right fun hall p hp => (hrefresh p).2 (.inr (hall p hp))
    · obtain ⟨hside, hp'⟩ := hclean p hp'
      apply hshows
      rcases hside with hside | hside
      · have hreach : p < h.table.frontier.reach d.text := by rwa [hf]
        rw [hlt p hside]
        exact hs.painted p hreach hp'
      · obtain ⟨hfirst, hlast, hstate⟩ := hle p hside hp
        rw [hstate]
        exact hs.held p hfirst hlast hp'
    · apply hshows
      exact (hs.held.suffix hs.old_sorted hold) p hfirst hlast (hclean p hp).2

end Faithful

theorem paintStop_le_reach (h : Highlighter) (t : Text) (o : Nat) :
    h.paintStop t o ≤ h.table.frontier.reach t := by
  unfold paintStop
  cases h.table.frontier with
  | complete => exact (isSeam_lineBoundary t o).2
  | pending f => exact Nat.min_le_right _ _

/-- To highlight a range leaves the tags of reserved names outside of it. -/
theorem TaggedIn.marks_highlightRegion (hs : TaggedIn N (h, d)) (hstale : h.staleTags = [])
    (hsorted : h.table.entries.Pairwise fun d e => d.offset ≤ e.offset) (start stop : Nat)
    {n : String} (hn : N n) (hreserved : h.Reserves n) (hp : p < d.length) :
    (h.highlightRegion d start stop).2.tags.Marks n p ↔
      if start ≤ p ∧ p < stop then h.Dyes n (h.table.stateAt p) else d.tags.Marks n p := by
  refine ((hs.highlightRegion hstale start stop).marks n hn p hp).trans ?_
  rw [marks_strokes_spans hreserved hsorted]
  split
  · rename_i hin
    simp [hin]
  · rename_i hout
    simp [hout]

namespace Reliable

/-- What is highlighted is tagged as the table says. -/
theorem highlightLines (hs : Reliable N s) (i : Interval) :
    Reliable N (Highlighter.highlightLines s i) := by
  rw [highlightLines_eq]
  dsimp only
  split
  · obtain ⟨h, d⟩ := s
    dsimp only
    have hle := h.paintStop_le_reach d.text i.stop
    have hreach := hs.sound.table.reach_le
    have hsorted := hs.entries_sorted
    have hfirst := hs.reach_le_old
    have hlast := hs.old_le_length
    generalize d.text.lineStartOf i.start = start
    generalize h.paintStop d.text i.stop = stop at hle
    have hpainted := hs.tagged.highlightRegion hs.settled start stop
    have hmarks (n : String) (hn : N n) (hreserved : h.Reserves n) (p : Nat)
        (hp : p < d.text.length) :=
      hs.tagged.marks_highlightRegion hs.settled hsorted start stop hn hreserved hp
    have hrelieved := (Relieved.of_sameButTags hpainted.highlighter).trans
      (.subtractRefresh _ start stop)
    generalize h.highlightRegion d start stop = s' at hpainted hmarks hrelieved ⊢
    obtain ⟨h', d'⟩ := s'
    obtain ⟨patternTags, classTags, staleTags, rfl⟩ := hpainted.highlighter
    obtain ⟨tags, rfl⟩ := hpainted.document
    have hstale : staleTags = [] := hpainted.stale.trans hs.settled
    -- what is not highlighted is as it was
    have hout (p : Nat) (hp : p < d.text.length) (hnot : ¬(start ≤ p ∧ p < stop))
        (hclean : (h.refresh.subtract start stop).contains p = false)
        (state : Option PatternKey)
        (hshows : h.refresh.contains p = false → Shows N (h, d) p state) :
        Shows N ({ h with
          patternTags, classTags, staleTags, refresh := h.refresh.subtract start stop },
          { d with tags }) p state := by
      have hclean' : h.refresh.contains p = false := by
        rw [← Bool.not_eq_true, Region.contains_subtract] at hclean
        rw [← Bool.not_eq_true]
        exact fun hdirty => hclean ⟨hdirty, hnot⟩
      intro n hn hreserved
      refine (hmarks n hn hreserved p hp).trans ?_
      rw [if_neg hnot]
      exact hshows hclean' n hn hreserved
    refine ⟨⟨hs.attached, hs.sound.relieved hrelieved, ?_, .inl hstale, fun p hp hclean => ?_,
      fun p hbefore hbehind hclean => ?_⟩, hstale⟩
    · exact ⟨hpainted.tagged.tidy, hpainted.tagged.pattern, hpainted.tagged.context,
        hpainted.tagged.own⟩
    · have hlen : p < d.text.length := Nat.lt_of_lt_of_le hp hreach
      by_cases hin : start ≤ p ∧ p < stop
      · intro n hn hreserved
        refine (hmarks n hn hreserved p hlen).trans ?_
        rw [if_pos hin]
        rfl
      · exact hout p hlen hin hclean _ (hs.painted p hp)
    · obtain ⟨c, hc, hcp⟩ := hbefore
      obtain ⟨e, he, hpe⟩ := hbehind
      have hlo := hfirst c hc
      have hhi := hlast e he
      dsimp only at hlo hhi
      have hin : ¬(start ≤ p ∧ p < stop) := by omega
      exact hout p (by omega) hin hclean _ (hs.held p ⟨c, hc, hcp⟩ ⟨e, he, hpe⟩)
  · exact hs

end Reliable

/-- Neither the requests nor the size of batches have to do with it. -/
theorem Faithful.of_same (hs : Faithful N (h, d)) (hsetup : h.SameSetup g)
    (hsound : g.Sound d.text) (htagged : TaggedIn N (g, d)) (htable : g.table = h.table)
    (hrefresh : g.refresh = h.refresh) (hstale : g.staleTags = h.staleTags) :
    Faithful N (g, d) := by
  have hshows (p : Nat) (state : Option PatternKey) (hp : Shows N (h, d) p state) :
      Shows N (g, d) p state := hp.congr hsetup.patterns fun n _ => Iff.rfl
  refine ⟨?_, hsound, htagged, ?_, fun p hp hclean => ?_, fun p hfirst hlast hclean => ?_⟩
  · rw [isAttachedTo, hsetup.attached]
    exact hs.attached
  · rw [hstale, hrefresh]
    exact hs.stale
  · apply hshows
    rw [htable] at hp ⊢
    exact hs.painted p hp (hrefresh ▸ hclean)
  · apply hshows
    rw [htable] at hfirst hlast ⊢
    exact hs.held p hfirst hlast (hrefresh ▸ hclean)

theorem Reliable.resize (hs : Reliable N (h, d)) (batchSize : Nat) (estimates : List Nat) :
    Reliable N ({ h with batchSize, estimates }, d) := by
  have hsound : ({ h with batchSize, estimates } : Highlighter).Sound d.text := { hs.sound with }
  have htagged : TaggedIn N ({ h with batchSize, estimates }, d) :=
    ⟨hs.tagged.tidy, hs.tagged.pattern, hs.tagged.context, hs.tagged.own⟩
  exact ⟨hs.toFaithful.of_same ⟨rfl, rfl, rfl⟩ hsound htagged rfl rfl rfl, hs.settled⟩

/-- What a highlighter does between commands leaves it reliable. -/
theorem working_reliable (N : String → Prop) : Working (Reliable N) where
  build s hs needed := by
    have hbuilt := hs.toFaithful.build needed
    obtain ⟨table, refresh, batchSize, estimates, announced, heq⟩ := s.1.build_same s.2.text needed
    rw [heq] at hbuilt ⊢
    exact ⟨hbuilt, hs.settled⟩
  highlightLines s hs i := hs.highlightLines i
  request s hs requests hbelow := by
    have hsound : ({ s.1 with requests } : Highlighter).Sound s.2.text :=
      { hs.sound with requests := hbelow hs.sound.requests }
    have htagged : TaggedIn N ({ s.1 with requests }, s.2) :=
      ⟨hs.tagged.tidy, hs.tagged.pattern, hs.tagged.context, hs.tagged.own⟩
    exact ⟨hs.toFaithful.of_same ⟨rfl, rfl, rfl⟩ hsound htagged rfl rfl rfl, hs.settled⟩

end Highlighter
end CodeBuffer
