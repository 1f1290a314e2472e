import CodeBuffer.Proofs.Observing.Painted
import CodeBuffer.Proofs.Plain.Editing

namespace CodeBuffer

open Delimiter DelimiterTable PlainLanguage

/-- How much a batch analyses, and whether it may use the old delimiters. -/
structure Batch where
  size : Nat
  needed : Nat
  reuse : Bool
  deriving DecidableEq, Repr

namespace WordPair

/-- The pattern that searches for the words one place after the other. -/
def pattern (p : WordPair) : DelimitedPattern where
  id := toString p.key
  style := "enclosure"
  key := p.key
  opener := .ofLengthAt "opener" (Place.wordAt p.opener) Place.wordAt_le
  closer := .ofLengthAt "closer" (Place.wordAt p.closer) Place.wordAt_le
  contextClass := none

end WordPair

/-- A highlighter for a language. -/
def PlainLanguage.highlighter (L : PlainLanguage) (config : BatchConfig) : Highlighter :=
  { Highlighter.ofConfig config with
    patterns := L.pairs.map fun p => .delimited p.pattern
    escape := L.escape }

theorem PlainLanguage.spokenBy_highlighter (L : PlainLanguage) (config : BatchConfig) :
    L.SpokenBy (L.highlighter config) := by
  refine ⟨?_, rfl⟩
  rw [highlighter, delimitedOf, List.filterMap_map, Search]
  generalize L.pairs = pairs
  induction pairs with
  | nil => exact .nil
  | cons p pairs ih =>
    exact .cons ⟨rfl, Matcher.finds_ofLengthAt _ _, Matcher.finds_ofLengthAt _ _⟩ ih

/-- Block comments, and strings between bars, with an escape character. -/
def PlainLanguage.commentsAndStrings : PlainLanguage where
  pairs := [
    ⟨0, ['/', '*'], ['*', '/'], by simp [isLineBreak], by simp [isLineBreak]⟩,
    ⟨1, ['|'], ['|'], by simp [isLineBreak], by simp [isLineBreak]⟩]
  escape := some '\\'
  keys_nodup := by simp
  escape_inLine := by simp [isLineBreak]

namespace Highlighter

/-- The delimiters that one scan of the whole text finds. -/
def scratch (h : Highlighter) (t : Text) : List Delimiter :=
  (Chunk.ofRange t 0 t.length h.escape).collect (delimitedOf h.patterns) 0 none

/-- The highlighter before a batch. -/
def prepared (h : Highlighter) (b : Batch) : Highlighter :=
  { h with
    batchSize := b.size
    table := if b.reuse then h.table else { h.table with old := none } }

/-- What an edit makes of the delimiters, with those found anew in the edited lines. Tells whether
the table survives. -/
def rescanned (h : Highlighter) (t : Text) (e : Edit) : Bool × DelimiterTable :=
  let head := t.lineStartOf e.offset
  let scanStop := t.nextLineStart e.stop
  h.table.applyEdit e head scanStop
    ((Chunk.ofRange t head scanStop h.escape).collect (delimitedOf h.patterns) head
      (h.table.stateBefore head))

def runBatches (h : Highlighter) (t : Text) (bs : List Batch) : Highlighter :=
  bs.foldl (fun h b => (h.prepared b).build t b.needed) h

variable {L : PlainLanguage} {t t' : Text} {e : Edit} {h : Highlighter}

theorem SameSetup.spokenBy {h' : Highlighter} (hs : h.SameSetup h') (hL : L.SpokenBy h) :
    L.SpokenBy h' := by
  rw [SpokenBy, hs.patterns, hs.escape]
  exact hL

theorem SameSetup.scratch_eq {h' : Highlighter} (hs : h.SameSetup h') (t : Text) :
    h'.scratch t = h.scratch t := by
  rw [scratch, hs.patterns, hs.escape, scratch]

theorem explores_scratch (hL : L.SpokenBy h) (t : Text) :
    L.Explores t 0 none (h.scratch t) t.length := by
  rw [scratch, hL.2]
  exact explores_collect hL.1 (Nat.zero_le _) (Nat.le_refl _) (.inl (Nat.le_refl _)) none

/-- A table that is analysed to the end of the text holds what one scan finds. -/
theorem entries_eq_scratch (hL : L.SpokenBy h) {T : DelimiterTable} (hT : L.Tracks t [] 0 T)
    (hend : T.frontier.reach t = t.length) : T.entries = h.scratch t := by
  obtain ⟨ds, hds, hseen⟩ := hT.entries
  rw [hend] at hseen
  rw [hds]
  exact hseen.unique (explores_scratch hL t)

theorem prepared_tracks {base : List Delimiter} {start : Nat}
    (hT : L.Tracks t base start h.table) (b : Batch) :
    L.Tracks t base start (h.prepared b).table ∧
      (h.prepared b).table.frontier = h.table.frontier := by
  rw [prepared]
  cases b.reuse with
  | true => exact ⟨hT, rfl⟩
  | false => exact ⟨⟨hT.reach_le, hT.entries, _, Nat.le_refl _, none, _, .nothing _ _⟩, rfl⟩

/-- So many batches analyse the whole text. -/
theorem runBatches_complete (hL : L.SpokenBy h) (hT : L.Tracks t [] 0 h.table) {bs : List Batch}
    (hbs : h.table.frontier = .complete ∨ t.length < h.table.frontier.reach t + bs.length) :
    (h.runBatches t bs).table.frontier = .complete ∧
      (h.runBatches t bs).table.entries = h.scratch t := by
  induction bs generalizing h with
  | nil =>
    have hreach := hT.reach_le
    have hc : h.table.frontier = .complete := hbs.resolve_right (by simp; omega)
    exact ⟨hc, entries_eq_scratch hL hT (congrArg (Frontier.reach t) hc)⟩
  | cons b bs ih =>
    obtain ⟨hT', hf⟩ := prepared_tracks hT b
    have hsetup : h.SameSetup (h.prepared b) := ⟨rfl, rfl, rfl⟩
    obtain ⟨hbuilt, hprogress⟩ := build_tracks (hsetup.spokenBy hL) hT' b.needed
    have hsetup' := hsetup.trans (sameSetup_build _ t b.needed)
    have hnext := ih (hsetup'.spokenBy hL) hbuilt ?_
    · rw [hsetup'.scratch_eq] at hnext
      exact hnext
    · rcases hbs with hc | hlen
      · have hsame : (h.prepared b).build t b.needed = h.prepared b := by
          rw [build, hf, hc]
        rw [hsame, hf]
        exact .inl hc
      · rcases hprogress with hc | hlt
        · exact .inl hc
        · rw [hf] at hlt
          rw [List.length_cons] at hlen
          exact .inr (by omega)

/-- With what is found anew in the edited lines the table says what is seen in the new text. -/
theorem rescanned_tracks (hL : L.SpokenBy h) (hT : L.Tracks t [] 0 h.table) (he : e.Turns t t')
    (hin : h.table.isBeyondFrontier e = false) : L.Tracks t' [] 0 (h.rescanned t' e).2 := by
  have hbounds : t'.lineStartOf e.offset ≤ t'.nextLineStart e.stop ∧
      t'.nextLineStart e.stop ≤ t'.length := by
    have := t'.lineStartOf_le e.offset
    have := t'.le_nextLineStart _ he.stop_le
    have := e.offset_le_stop
    have := t'.nextLineStart_le e.stop
    omega
  have hfresh := explores_collect hL.1 hbounds.1 hbounds.2 (t'.isSeam_nextLineStart e.stop)
    (h.table.stateBefore (t'.lineStartOf e.offset))
  rw [← hL.2] at hfresh
  exact hT.applyEdit he hin rfl rfl hfresh

/-- A complete table stays complete or is cut where the edited lines begin, and says what is seen.
Its old delimiters do not matter, so that it may lose them first. -/
theorem rescanned_complete_tracks (hL : L.SpokenBy h) (he : e.Turns t t')
    (hc : h.table.frontier = .complete) (hs : h.table.entries = h.scratch t) {survives : Bool}
    {table : DelimiterTable} (hresult : h.rescanned t' e = (survives, table)) :
    L.Tracks t' [] 0 (if survives then { table with old := none } else table) ∧
      table.frontier = if survives then .complete else .pending (t'.lineStartOf e.offset) := by
  have hT : L.Tracks t [] 0 { h.table with old := none } := by
    apply tracks_of_explores
    · rw [hc]
      exact Nat.le_refl _
    · rw [hc, hs]
      exact explores_scratch hL t
  have hin : ({ h.table with old := none } : DelimiterTable).isBeyondFrontier e = false := by
    simp only [isBeyondFrontier, hc]
  have hnew := rescanned_tracks (h := { h with table := { h.table with old := none } }) hL hT he hin
  have hforget := applyEdit_forget _ _ _ _ _ hresult
  rw [show ({ h with table := { h.table with old := none } } : Highlighter).rescanned t' e = _
    from hforget] at hnew
  refine ⟨hnew, ?_⟩
  rcases applyEdit_cases h.table e (t'.lineStartOf e.offset) (t'.nextLineStart e.stop)
    ((Chunk.ofRange t' (t'.lineStartOf e.offset) (t'.nextLineStart e.stop) h.escape).collect
      (delimitedOf h.patterns) (t'.lineStartOf e.offset)
      (h.table.stateBefore (t'.lineStartOf e.offset))) with ⟨-, -, -, hsame⟩ | ⟨_, hsame, -⟩
  · rw [← rescanned, hresult] at hsame
    obtain ⟨rfl, rfl⟩ := Prod.mk.inj hsame
    rw [if_pos rfl, DelimiterTable.moved, hc]
    rfl
  · rw [← rescanned, hresult] at hsame
    obtain ⟨rfl, rfl⟩ := Prod.mk.inj hsame
    exact (if_neg Bool.false_ne_true).symm

/-- An edit of a text that is analysed to its end. Where the table survives, it holds at once what a
scan of the new text finds. Where it is cut, it keeps what such a scan finds before the edited
lines, and whatever batches follow, enough of them find the rest. -/
theorem rescanned_of_complete (hL : L.SpokenBy h) (he : e.Turns t t')
    (hc : h.table.frontier = .complete) (hs : h.table.entries = h.scratch t) :
    match h.rescanned t' e with
    | (true, table) => table.frontier = .complete ∧ table.entries = h.scratch t'
    | (false, table) =>
      table.frontier = .pending (t'.lineStartOf e.offset) ∧
        table.entries = (h.scratch t').filter (beforeLine (t'.lineStartOf e.offset)) ∧
          ∀ bs : List Batch, t'.length < bs.length →
            ({ h with table }.runBatches t' bs).table.frontier = .complete ∧
              ({ h with table }.runBatches t' bs).table.entries = h.scratch t' := by
  obtain ⟨⟨survives, table⟩, hresult⟩ : ∃ r, h.rescanned t' e = r := ⟨_, rfl⟩
  obtain ⟨hnew, hfrontier⟩ := rescanned_complete_tracks hL he hc hs hresult
  rw [hresult]
  cases survives with
  | true =>
    rw [if_pos rfl] at hnew hfrontier
    have hentries := entries_eq_scratch hL hnew (congrArg (Frontier.reach t') hfrontier)
    exact ⟨hfrontier, hentries⟩
  | false =>
    rw [if_neg Bool.false_ne_true] at hnew hfrontier
    refine ⟨hfrontier, ?_, ?_⟩
    · obtain ⟨ds, hds, hseen⟩ := hnew.entries
      rw [List.nil_append] at hds
      rw [hfrontier] at hseen
      have hclean : L.Clean t' (t'.lineStartOf e.offset) :=
        clean_of_isSeam (t'.isSeam_lineStartOf _)
      have hle := t'.lineStartOf_le e.offset
      have hscratch := explores_scratch hL t'
      rw [beforeLine_eq, hscratch.filter_eq hclean, hds]
      exact hseen.unique (hscratch.split hclean (Nat.zero_le _) (by omega)).1
    · intro bs hbs
      exact runBatches_complete (h := { h with table }) hL hnew (.inr (by omega))

/-- A highlighter of a text with a string on its second line. -/
def stringHighlighter : Highlighter :=
  { commentsAndStrings.highlighter {} with table := ⟨[.opener 2 1, .closer 5], none, .complete⟩ }

/-- A comment is opened before the line that holds the string. -/
theorem rescanned_of_complete_opener :
    commentsAndStrings.SpokenBy stringHighlighter ∧
      (Edit.insertion 0 2).Turns ['a', '\n', '|', 'b', '|'] ['/', '*', 'a', '\n', '|', 'b', '|'] ∧
        stringHighlighter.table.entries = stringHighlighter.scratch ['a', '\n', '|', 'b', '|'] ∧
          ∀ bs : List Batch, 7 < bs.length →
            ({ stringHighlighter with
              table := ⟨[], some ⟨[.opener 4 1, .closer 7], 0⟩, .pending 0⟩ }.runBatches
                ['/', '*', 'a', '\n', '|', 'b', '|'] bs).table.entries =
              stringHighlighter.scratch ['/', '*', 'a', '\n', '|', 'b', '|'] := by
  have hL : commentsAndStrings.SpokenBy stringHighlighter :=
    commentsAndStrings.spokenBy_highlighter {}
  have he : (Edit.insertion 0 2).Turns ['a', '\n', '|', 'b', '|']
      ['/', '*', 'a', '\n', '|', 'b', '|'] := ⟨by decide, ['/', '*'], rfl, rfl⟩
  have hs : stringHighlighter.table.entries =
      stringHighlighter.scratch ['a', '\n', '|', 'b', '|'] := by decide +kernel
  have hcut : stringHighlighter.rescanned ['/', '*', 'a', '\n', '|', 'b', '|'] (.insertion 0 2) =
      (false, ⟨[], some ⟨[.opener 4 1, .closer 7], 0⟩, .pending 0⟩) := by decide +kernel
  have hafter := rescanned_of_complete hL he rfl hs
  rw [hcut] at hafter
  exact ⟨hL, he, hs, fun bs hbs => (hafter.2.2 bs hbs).2⟩

end Highlighter
end CodeBuffer
