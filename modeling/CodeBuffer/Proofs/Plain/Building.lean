import CodeBuffer.Proofs.Plain.Table

namespace CodeBuffer

open Delimiter DelimiterTable

namespace PlainLanguage

variable (L : PlainLanguage)

/-- A highlighter whose delimited patterns are the words of the language. -/
def SpokenBy (h : Highlighter) : Prop :=
  Search (delimitedOf h.patterns) L.pairs ∧ h.escape = L.escape

/-- Behind the entries `base`, a table holds what is seen from `start` on as far as it is analysed.
Its old delimiters are seen from some later offset on. -/
structure Tracks (t : Text) (base : List Delimiter) (start : Nat) (T : DelimiterTable) : Prop where
  reach_le : T.frontier.reach t ≤ t.length
  entries : ∃ ds, T.entries = base ++ ds ∧
    L.Explores t start (stateFrom none base) ds (T.frontier.reach t)
  old : ∃ o ≥ T.frontier.reach t, ∃ state stop, L.Explores t o state T.oldEntries stop

variable {L} {t : Text} {base : List Delimiter} {start : Nat} {T : DelimiterTable}

/-- A table without old delimiters. -/
theorem tracks_of_explores {entries : List Delimiter} {frontier : Frontier}
    (hle : frontier.reach t ≤ t.length)
    (h : L.Explores t 0 none entries (frontier.reach t)) :
    L.Tracks t [] 0 ⟨entries, none, frontier⟩ :=
  ⟨hle, ⟨entries, rfl, h⟩, _, Nat.le_refl _, none, _, .nothing _ _⟩

/-- Where the old table takes over, what it has is what is seen up to its last entry. -/
theorem Tracks.takeOver {found before behind cs rest es : List Delimiter} {d e : Delimiter}
    {f stop : Nat} (hT : L.Tracks t base start T) (hf : T.frontier = .pending f)
    (hfound : L.Explores t f (stateAfter T.entries) found stop)
    (hbefore : found = before ++ d :: behind) (hold : T.oldEntries = cs ++ d :: rest)
    (hes : T.entries ++ before ++ d :: rest = es ++ [e]) :
    L.Tracks t base start ⟨if e.opens then es else es ++ [e], none, .pending e.offset⟩ := by
  obtain ⟨ds, hds, hseen⟩ := hT.entries
  obtain ⟨o, -, state, m, hlater⟩ := hT.old
  rw [hf, Frontier.reach] at hseen
  rw [stateAfter_eq, hds, stateFrom_append, hbefore] at hfound
  rw [hold] at hlater
  have all : L.Explores t start (stateFrom none base) (ds ++ before ++ d :: rest) m := by
    have hfirst := hseen.append hfound
    rw [← List.append_assoc] at hfirst
    exact hfirst.splice hlater
  -- the last entry of all is one of those behind `base`
  obtain ⟨ds', hsplit⟩ : ∃ ds', ds ++ before ++ d :: rest = ds' ++ [e] := by
    rcases List.eq_nil_or_concat (d :: rest) with hnil | ⟨r, e', hr⟩
    · cases hnil
    · rw [List.concat_eq_append] at hr
      rw [hr, ← List.append_assoc] at hes
      have := (List.append_inj' hes rfl).2
      exact ⟨ds ++ before ++ r, by rw [hr, ← this, ← List.append_assoc]⟩
  have hes' : es = base ++ ds' := by
    rw [hds, List.append_assoc, List.append_assoc, ← List.append_assoc ds, hsplit,
      ← List.append_assoc] at hes
    exact (List.append_inj' hes rfl).1.symm
  rw [hsplit] at all
  refine ⟨all.offset_le e (by simp), ⟨if e.opens then ds' else ds' ++ [e], ?_, all.upToLast⟩,
    _, Nat.le_refl _, none, _, .nothing _ _⟩
  rw [hes']
  split <;> simp

theorem Tracks.finishBatch {found : List Delimiter} {f stop : Nat} {old : Option Leftovers}
    (hT : L.Tracks t base start T) (hf : T.frontier = .pending f)
    (hfound : L.Explores t f (stateAfter T.entries) found stop) (hstop : t.IsSeam stop)
    (hle : stop ≤ t.length) (hold : ∀ o ∈ old, o.entries <:+ T.oldEntries) :
    L.Tracks t base start
      (({ T with entries := T.entries ++ found, old } : DelimiterTable).finishBatch stop
        (decide (t.length ≤ stop))) := by
  obtain ⟨ds, hds, hseen⟩ := hT.entries
  obtain ⟨o, -, state, m, hlater⟩ := hT.old
  rw [hf, Frontier.reach] at hseen
  rw [stateAfter_eq, hds, stateFrom_append] at hfound
  have reach :=
    reach_finishBatch ({ T with entries := T.entries ++ found, old } : DelimiterTable) hle
  refine ⟨by rwa [reach], ⟨ds ++ found, ?_, ?_⟩, ?_⟩
  · simp only [DelimiterTable.finishBatch, hds, List.append_assoc]
  · rw [reach]
    exact hseen.append hfound
  · rw [reach]
    rcases oldEntries_finishBatch { T with entries := T.entries ++ found, old } stop
      (decide (t.length ≤ stop)) with hnone | hsome
    · rw [hnone]
      exact ⟨stop, Nat.le_refl _, none, stop, .nothing _ _⟩
    · rw [hsome]
      have left : ({ T with entries := T.entries ++ found, old } : DelimiterTable).oldEntries <:+
          T.oldEntries := suffix_elim hold
      obtain ⟨o', -, state', hfrom⟩ := hlater.suffix left
      exact hfrom.dropWithin (clean_of_isSeam hstop)

end PlainLanguage

namespace Highlighter

variable {L : PlainLanguage} {t : Text} {base : List Delimiter} {start : Nat} {h : Highlighter}

@[simp] theorem table_refreshRange (h : Highlighter) (start stop : Nat) :
    (h.refreshRange start stop).table = h.table := by
  unfold refreshRange
  split <;> rfl

theorem le_batchStop (h : Highlighter) (needed : Nat) {f : Nat} (hf : f ≤ t.length) :
    f ≤ h.batchStop t f needed ∧ (f < t.length → f < h.batchStop t f needed) := by
  rw [batchStop]
  have hmin : min (max (f + h.batchSize) needed) t.length ≤ t.length := Nat.min_le_right _ _
  refine ⟨Nat.le_trans (by omega) (t.le_nextLineStart _ hmin), ?_⟩
  intro hlt
  by_cases hend : min (max (f + h.batchSize) needed) t.length < t.length
  · exact Nat.lt_of_le_of_lt (by omega) (t.lt_nextLineStart _ hend)
  · exact Nat.lt_of_lt_of_le (by omega) (t.le_nextLineStart _ hmin)

/-- What a batch can come to, with the delimiters that it found. -/
theorem build_cases (h : Highlighter) (t : Text) (needed : Nat) {f : Nat}
    (hf : h.table.frontier = .pending f) {found : List Delimiter}
    (hfound : (Chunk.ofRange t f (h.batchStop t f needed) h.escape).collect
      (delimitedOf h.patterns) f h.table.lastState = found) :
    (∃ before d behind cs rest es e, found = before ++ d :: behind ∧
      h.table.oldEntries = cs ++ d :: rest ∧ h.table.entries ++ before ++ d :: rest = es ++ [e] ∧
      f < e.offset ∧ (h.build t needed).table =
        ⟨if e.opens then es else es ++ [e], none, .pending e.offset⟩) ∨
      ∃ old : Option Leftovers, (∀ o ∈ old, o.entries <:+ h.table.oldEntries) ∧
        (h.build t needed).table =
          ({ h.table with entries := h.table.entries ++ found, old } : DelimiterTable).finishBatch
            (h.batchStop t f needed) (decide (t.length ≤ h.batchStop t f needed)) := by
  rcases h.table.pushAll_cases f found with
    ⟨before, d, behind, cs, rest, es, e, hbefore, hold, hes, hlast, hpush⟩ | ⟨old, hold, hpush⟩
  · refine .inl ⟨before, d, behind, cs, rest, es, e, hbefore, hold, hes, hlast, ?_⟩
    simp only [build, hf, table_refreshRange, table_reestimate, hfound, hpush]
  · refine .inr ⟨old, hold, ?_⟩
    simp only [build, hf, table_refreshRange, table_reestimate, hfound, hpush]

/-- A batch keeps to what is seen, and brings the frontier forward. -/
theorem build_tracks (hL : L.SpokenBy h) (hT : L.Tracks t base start h.table) (needed : Nat) :
    L.Tracks t base start (h.build t needed).table ∧
      ((h.build t needed).table.frontier = .complete ∨
        h.table.frontier.reach t < (h.build t needed).table.frontier.reach t) := by
  cases hf : h.table.frontier with
  | complete =>
    have same : h.build t needed = h := by rw [build, hf]
    rw [same]
    exact ⟨hT, .inl hf⟩
  | pending f =>
    have hfle : f ≤ t.length := by
      have := hT.reach_le
      rwa [hf] at this
    obtain ⟨hle, hlt⟩ := h.le_batchStop needed hfle
    have hseam : t.IsSeam (h.batchStop t f needed) := t.isSeam_nextLineStart _
    have hend : h.batchStop t f needed ≤ t.length := t.nextLineStart_le _
    have found := L.explores_collect hL.1 hle hend hseam h.table.lastState
    rw [← hL.2] at found
    rcases h.build_cases t needed hf rfl with
      ⟨before, d, behind, cs, rest, es, e, hbefore, hold, hes, hlast, hbuild⟩ | ⟨old, hold, hbuild⟩
    · rw [hbuild]
      exact ⟨hT.takeOver hf found hbefore hold hes, .inr hlast⟩
    · rw [hbuild]
      refine ⟨hT.finishBatch hf found hseam hend hold, ?_⟩
      by_cases hall : t.length ≤ h.batchStop t f needed
      · exact .inl (by simp [DelimiterTable.finishBatch, hall])
      · refine .inr ?_
        simp only [DelimiterTable.finishBatch, hall, decide_false, Bool.false_eq_true, if_false]
        exact hlt (by omega)

end Highlighter
end CodeBuffer
