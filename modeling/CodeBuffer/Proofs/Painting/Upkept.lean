import CodeBuffer.Proofs.Painting.Tagged
import CodeBuffer.Proofs.Upkeep.Progress

namespace CodeBuffer

open Delimiter DelimiterTable PlainLanguage

namespace Highlighter

/-! What a highlighter does between commands -/

/-- What a batch, the highlighting of lines and a change of the requests leave as it is. -/
structure Working (P : Work → Prop) : Prop where
  build : ∀ s, P s → ∀ needed, P (s.1.build s.2.text needed, s.2)
  highlightLines : ∀ s, P s → ∀ i, P (highlightLines s i)
  request : ∀ s, P s → ∀ requests : Region,
    (s.1.requests.Below s.2.text.length → requests.Below s.2.text.length) →
      P ({ s.1 with requests }, s.2)

namespace Working

variable {P : Work → Prop} {h : Highlighter} {d : Document}

theorem ensureHighlighted (hP : Working P) (hs : P (h, d)) (start stop : Nat) :
    P (h.ensureHighlighted d start stop) := by
  have lines (is : List Interval) (s : Work) (hs : P s) :
      P (is.foldl Highlighter.highlightLines s) := by
    induction is generalizing s with
    | nil => exact hs
    | cons i is ih => exact ih _ (hP.highlightLines s hs i)
  exact lines _ (h, d) hs

theorem buildAll (hP : Working P) (hs : P (h, d)) (needs : List Nat) :
    P (h.buildAll d.text needs, d) := by
  induction needs generalizing h with
  | nil => exact hs
  | cons needed needs ih => exact ih (hP.build (h, d) hs needed)

theorem serve (hP : Working P) (requests : List Interval) {s : Work} (hs : P s) :
    P (serve requests s) := by
  induction requests generalizing s with
  | nil => exact hs
  | cons r rest ih =>
    have hserved (limit : Nat) : P (serveTo s r.start limit) :=
      hP.ensureHighlighted (hP.request s hs (s.1.requests.subtract r.start limit)
        (Region.PartOf.subtract _ _ _).below) _ _
    rw [serve_cons]
    dsimp only
    split
    · exact hs
    · split
      · exact hserved _
      · exact ih (hserved _)

theorem highlights (hP : Working P) (hs : P (h, d)) {s : Work} (hw : h.Highlights d s) : P s := by
  cases hw with
  | nothing => exact hs
  | tagged needs start stop => exact hP.ensureHighlighted (hP.buildAll hs needs) start stop
  | asked needs start hstop =>
    exact hP.request (_, d) (hP.buildAll hs needs) _ fun hbelow => hbelow.add hstop start

theorem updateHighlight (hP : Working P) (hs : P (h, d)) (start stop : Nat) (synchronous : Bool) :
    P (h.updateHighlight d start stop synchronous) :=
  hP.highlights hs (h.highlights_updateHighlight d start stop synchronous)

theorem runIdleSlice (hP : Working P) (hs : P (h, d)) : P (h.runIdleSlice d).2 := by
  unfold Highlighter.runIdleSlice
  split
  · dsimp only
    split
    · exact hP.serve _ hs
    · exact hP.serve _ (hP.build (h, d) hs 0)
  · exact hs

end Working

/-! Tags are where the patterns say, but for what is marked as out of date. -/

/-- A highlighter that is attached to a document. What is analysed ends with a line, and what of it
is not out of date has the tags that it would have if all were highlighted at once. -/
structure Upkept (s : Work) : Prop where
  attached : s.1.isAttachedTo s.2 = true
  sound : s.1.Sound s.2.text
  tagged : Tagged s
  unheld : s.1.table.old = none
  seam : s.2.text.IsSeam (s.1.table.frontier.reach s.2.text)
  tracks : ∀ L : PlainLanguage, L.SpokenBy s.1 → L.Tracks s.2.text [] 0 s.1.table
  stale : s.1.staleTags = [] ∨ ∀ p < s.2.text.length, s.1.refresh.contains p = true
  painted : ∀ L : PlainLanguage, L.SpokenBy s.1 → (∀ q ∈ simpleOf s.1.patterns, q.IsPlain) →
    ∀ p < s.1.table.frontier.reach s.2.text, s.1.refresh.contains p = false →
      ∀ n, s.2.tags.Marks n p ↔ s.1.Shade s.2.text n p

/-- No tag waits to be cleared, and every pattern has its tag. -/
structure Settled (s : Work) : Prop extends Upkept s where
  settled : s.1.staleTags = []
  all : s.1.AllTagged

variable {h h' : Highlighter} {d : Document} {s : Work} {t : Text} {n : String} {p : Nat}

theorem isSeam_lineBoundary (t : Text) (o : Nat) :
    t.IsSeam (t.lineBoundary o) ∧ t.lineBoundary o ≤ t.length := by
  unfold Text.lineBoundary
  split
  · rename_i hstarts
    have hline : t.lineStartOf o = o ∨ o = 0 := by
      simp only [Text.startsLine, Bool.or_eq_true, beq_iff_eq] at hstarts
      exact hstarts.symm
    rcases hline with hline | rfl
    · have hle := t.lineStartOf_le o
      rw [hline] at hle
      exact ⟨hline ▸ t.isSeam_lineStartOf o, by omega⟩
    · exact ⟨.inr (.inl rfl), Nat.zero_le _⟩
  · exact ⟨t.isSeam_nextLineStart o, t.nextLineStart_le o⟩

/-- Lines are highlighted up to the end of one of them. -/
theorem paintStop_spec (hseam : t.IsSeam (h.table.frontier.reach t)) (o : Nat) :
    t.IsSeam (h.paintStop t o) ∧ h.paintStop t o ≤ h.table.frontier.reach t := by
  obtain ⟨hboundary, hle⟩ := isSeam_lineBoundary t o
  unfold paintStop
  cases hf : h.table.frontier with
  | complete => exact ⟨hboundary, hle⟩
  | pending f =>
    rw [hf] at hseam
    refine ⟨?_, Nat.min_le_right _ _⟩
    dsimp only
    rcases Nat.le_total (t.lineBoundary o) f with hlt | hlt
    · rw [Nat.min_eq_left hlt]
      exact hboundary
    · rw [Nat.min_eq_right hlt]
      exact hseam

theorem shade_congr (hpatterns : h'.patterns = h.patterns) (hescape : h'.escape = h.escape) :
    h'.Shade t n p ↔ h.Shade t n p := by
  have hspan (place : Place) (span : Span) :
      h'.spanStrokes place span = h.spanStrokes place span := by
    rw [spanStrokes, spanStrokes, hpatterns]
  simp only [Shade, ShadesAll, Shades, hspan, scratchTable, scratch, hpatterns, hescape]

/-- A table without old delimiters gets none, and a batch ends with a line. -/
theorem table_build_of_unheld (hold : h.table.old = none) (t : Text) (needed : Nat) {f : Nat}
    (hf : h.table.frontier = .pending f) :
    (h.build t needed).table.old = none ∧
      ((h.build t needed).table.frontier = .complete ∧ h.batchStop t f needed = t.length ∨
        (h.build t needed).table.frontier = .pending (h.batchStop t f needed)) := by
  have hnone : h.table.oldEntries = [] := by
    rw [oldEntries, hold]
    rfl
  have hend : h.batchStop t f needed ≤ t.length := t.nextLineStart_le _
  rcases h.build_cases t needed hf rfl with
    ⟨before, d, behind, cs, rest, es, e, -, hsome, -⟩ | ⟨old, hsuffix, hbuild⟩
  · rw [hnone] at hsome
    simp at hsome
  · rw [hbuild]
    refine ⟨?_, ?_⟩
    · cases old with
      | none => rfl
      | some old =>
        have hempty : old.entries = [] := by
          have := hsuffix old rfl
          rw [hnone] at this
          exact List.suffix_nil.1 this
        simp [DelimiterTable.finishBatch, hempty]
    · simp only [DelimiterTable.finishBatch]
      split <;> rename_i hall
      · exact .inl ⟨rfl, Nat.le_antisymm hend (of_decide_eq_true hall)⟩
      · exact .inr rfl

/-- A batch marks as out of date what it analyses. -/
theorem Upkept.build (hs : Upkept s) (needed : Nat) :
    Upkept (s.1.build s.2.text needed, s.2) := by
  obtain ⟨h, d⟩ := s
  dsimp only
  cases hf : h.table.frontier with
  | complete =>
    rw [Highlighter.build, hf]
    exact hs
  | pending f =>
    have hsetup := h.sameSetup_build d.text needed
    have hsound := hs.sound.build needed
    obtain ⟨hold, hfrontier⟩ := table_build_of_unheld hs.unheld d.text needed hf
    have hreach : (h.build d.text needed).table.frontier.reach d.text =
        h.batchStop d.text f needed := by
      rcases hfrontier with ⟨hc, hstop⟩ | hpending
      · rw [hc, hstop]
        rfl
      · rw [hpending]
        rfl
    have hrefresh (p : Nat) : (h.build d.text needed).refresh.contains p = true ↔
        (f ≤ p ∧ p < h.batchStop d.text f needed) ∨ h.refresh.contains p = true :=
      contains_refresh_build hs.sound.refresh.1 hf needed p
    have htracks (L : PlainLanguage) (hL : L.SpokenBy h) :=
      (build_tracks hL (hs.tracks L hL) needed).1
    obtain ⟨table, refresh, batchSize, estimates, announced, hbuilt⟩ := h.build_same d.text needed
    rw [hbuilt] at hsound hold hreach hrefresh htracks ⊢
    refine ⟨hs.attached, hsound, ⟨hs.tagged.tidy, hs.tagged.pattern, hs.tagged.context,
      hs.tagged.own⟩, hold, ?_, htracks, ?_, fun L hL hps p hp hclean n => ?_⟩
    · dsimp only at hreach ⊢
      rw [hreach]
      exact d.text.isSeam_nextLineStart _
    · exact hs.stale.imp_right fun hall p hp => (hrefresh p).2 (.inr (hall p hp))
    · dsimp only at hreach hrefresh hp hclean
      rw [hreach] at hp
      rw [← Bool.not_eq_true, hrefresh, not_or, Bool.not_eq_true] at hclean
      have hlt : p < h.table.frontier.reach d.text := by
        rw [hf, Frontier.reach]
        omega
      exact (hs.painted L hL hps p hlt hclean.2 n).trans (shade_congr rfl rfl).symm

/-- What is highlighted has the tags that it has in the text as a whole. -/
theorem Settled.highlightLines (hs : Settled s) (i : Interval) : Settled (highlightLines s i) := by
  rw [highlightLines_eq]
  dsimp only
  split
  · rename_i hlt
    obtain ⟨h, d⟩ := s
    dsimp only at hlt ⊢
    obtain ⟨hseam, hle⟩ := paintStop_spec hs.seam i.stop
    have hreach := hs.sound.table.reach_le
    have hpainted := hs.tagged.highlightRegion hs.settled (d.text.lineStartOf i.start)
      (h.paintStop d.text i.stop)
    have hrelieved := (Relieved.of_sameButTags hpainted.highlighter).trans (.subtractRefresh _
      (d.text.lineStartOf i.start) (h.paintStop d.text i.stop))
    generalize h.highlightRegion d (d.text.lineStartOf i.start) (h.paintStop d.text i.stop) = s'
      at hpainted hrelieved ⊢
    obtain ⟨h', d'⟩ := s'
    obtain ⟨patternTags, classTags, staleTags, rfl⟩ := hpainted.highlighter
    obtain ⟨tags, rfl⟩ := hpainted.document
    have hstale : staleTags = [] := hpainted.stale.trans hs.settled
    refine ⟨⟨hs.attached, hs.sound.relieved hrelieved, ?_, hs.unheld, hs.seam, hs.tracks,
      .inl hstale, fun L hL hps p hp hclean n => ?_⟩, hstale, fun q hq => ?_⟩
    · exact ⟨hpainted.tagged.tidy, hpainted.tagged.pattern, hpainted.tagged.context,
        hpainted.tagged.own⟩
    · have hL : L.SpokenBy h := hL
      have hps : ∀ q ∈ simpleOf h.patterns, q.IsPlain := hps
      have hstrokes := marks_strokes_iff_shade (n := n) (p := p) hL hps (hs.tracks L hL) hs.seam
        (d.text.isSeam_lineStartOf i.start) hseam hlt hle
      dsimp only at hp hclean
      refine (hpainted.marks n trivial p (Nat.lt_of_lt_of_le hp hreach)).trans ?_
      rw [hstrokes]
      by_cases hin : d.text.lineStartOf i.start ≤ p ∧ p < h.paintStop d.text i.stop
      · simp only [hin, and_self, not_true, and_false, false_or, true_and]
        exact (shade_congr rfl rfl).symm
      · have hold : h.refresh.contains p = false := by
          rw [← Bool.not_eq_true, Region.contains_subtract] at hclean
          rw [← Bool.not_eq_true]
          exact fun hdirty => hclean ⟨hdirty, hin⟩
        simp only [hin, not_false_eq_true, and_true, false_and, or_false]
        exact (hs.painted L hL hps p hp hold n).trans (shade_congr rfl rfl).symm
    · obtain ⟨tag, htag⟩ := hs.all q hq
      exact ⟨tag, hpainted.patternTags htag⟩
  · exact hs

/-- Neither the requests nor the size of batches have to do with it. -/
theorem Upkept.of_same {g : Highlighter} (hs : Upkept (h, d)) (hsetup : h.SameSetup g)
    (hsound : g.Sound d.text) (htagged : Tagged (g, d)) (htable : g.table = h.table)
    (hrefresh : g.refresh = h.refresh) (hstale : g.staleTags = h.staleTags) : Upkept (g, d) := by
  have hspoken {L : PlainLanguage} (hL : L.SpokenBy g) : L.SpokenBy h := by
    rw [SpokenBy, ← hsetup.patterns, ← hsetup.escape]
    exact hL
  refine ⟨?_, hsound, htagged, htable ▸ hs.unheld, htable ▸ hs.seam, fun L hL => ?_, ?_,
    fun L hL hps p hp hclean n => ?_⟩
  · rw [isAttachedTo, hsetup.attached]
    exact hs.attached
  · rw [htable]
    exact hs.tracks L (hspoken hL)
  · rw [hstale, hrefresh]
    exact hs.stale
  · rw [shade_congr hsetup.patterns hsetup.escape]
    exact hs.painted L (hspoken hL) (hsetup.patterns ▸ hps) p (htable ▸ hp) (hrefresh ▸ hclean) n

theorem Settled.resize (hs : Settled (h, d)) (batchSize : Nat) (estimates : List Nat) :
    Settled ({ h with batchSize, estimates }, d) := by
  have hsound : ({ h with batchSize, estimates } : Highlighter).Sound d.text := { hs.sound with }
  have htagged : Tagged ({ h with batchSize, estimates }, d) :=
    ⟨hs.tagged.tidy, hs.tagged.pattern, hs.tagged.context, hs.tagged.own⟩
  exact ⟨hs.toUpkept.of_same ⟨rfl, rfl, rfl⟩ hsound htagged rfl rfl rfl, hs.settled, hs.all⟩

/-- What a highlighter does between commands keeps the tags where they belong. -/
theorem working_settled : Working Settled where
  build s hs needed := by
    have hbuilt := hs.toUpkept.build needed
    obtain ⟨table, refresh, batchSize, estimates, announced, heq⟩ := s.1.build_same s.2.text needed
    rw [heq] at hbuilt ⊢
    exact ⟨hbuilt, hs.settled, hs.all⟩
  highlightLines s hs i := hs.highlightLines i
  request s hs requests hbelow := by
    have hsound : ({ s.1 with requests } : Highlighter).Sound s.2.text :=
      { hs.sound with requests := hbelow hs.sound.requests }
    have htagged : Tagged ({ s.1 with requests }, s.2) :=
      ⟨hs.tagged.tidy, hs.tagged.pattern, hs.tagged.context, hs.tagged.own⟩
    exact ⟨hs.toUpkept.of_same ⟨rfl, rfl, rfl⟩ hsound htagged rfl rfl rfl, hs.settled, hs.all⟩

/-- A table without old delimiters never stalls. -/
theorem not_stalls_of_unheld (hold : h.table.old = none) : ¬h.Stalls t := by
  rintro ⟨f, -, hf, hend⟩
  rcases h.build_length t hf with hc | ⟨hsome, -⟩
  · rw [hend] at hc
    cases hc
  · rw [oldEntries, hold] at hsome
    exact hsome rfl

/-- To highlight everything finds all delimiters and puts every tag where it belongs. -/
theorem Settled.updateHighlight_all (hs : Settled (h, d)) {L : PlainLanguage} (hL : L.SpokenBy h)
    (hps : ∀ q ∈ simpleOf h.patterns, q.IsPlain) :
    (h.updateHighlight d 0 d.length true).1.table.frontier = .complete ∧
      (h.updateHighlight d 0 d.length true).1.table.entries = h.scratch d.text ∧
        ∀ n, ∀ p < d.text.length,
          (h.updateHighlight d 0 d.length true).2.tags.Marks n p ↔ h.Shade d.text n p := by
  obtain ⟨htracks, hreach, hcomplete⟩ := Highlighter.updateHighlight_all hL hs.attached
    (hs.tracks L hL)
  have hc := hcomplete.2 (not_stalls_of_unheld hs.unheld)
  have hclean := (updateHighlight_synchronous hs.sound hs.attached 0 d.length).2
  have hafter := working_settled.updateHighlight hs 0 d.length true
  obtain ⟨needs, hpainted⟩ := h.updateHighlight_eq d 0 d.length true
  have hsetup := (h.sameSetup_buildAll d.text needs).trans hpainted.setup
  have htext := hpainted.document.text_eq
  refine ⟨hc, entries_eq_scratch hL htracks hreach, fun n p hp => ?_⟩
  rw [← shade_congr hsetup.patterns hsetup.escape, ← htext]
  refine hafter.painted L (hsetup.spokenBy hL) (by rwa [hsetup.patterns]) p ?_ ?_ n
  · rw [hc, htext]
    exact hp
  · exact hclean p (Nat.zero_le p) (by rwa [Nat.min_self])

end Highlighter
end CodeBuffer
