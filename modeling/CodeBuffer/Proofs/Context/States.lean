import CodeBuffer.Proofs.Painting.Shades
import CodeBuffer.Proofs.Upkeep.Table

namespace CodeBuffer

open Delimiter DelimiterTable

namespace Delimiter

/-- The state at an offset, of which delimiters that begin in a state tell. -/
def stateOver (inside : Option PatternKey) (ds : List Delimiter) (p : Nat) : Option PatternKey :=
  stateFrom inside (ds.takeWhile fun d => decide (d.offset ≤ p))

variable {inside inside' : Option PatternKey} {d e : Delimiter} {ds es : List Delimiter} {p : Nat}

@[simp] theorem stateOver_nil : stateOver inside [] p = inside := rfl

theorem stateOver_cons_of_le (hd : d.offset ≤ p) :
    stateOver inside (d :: ds) p = stateOver d.key ds p := by
  rw [stateOver, List.takeWhile_cons_of_pos (by simpa using hd)]
  rfl

theorem stateOver_cons_of_lt (hd : p < d.offset) : stateOver inside (d :: ds) p = inside := by
  rw [stateOver, List.takeWhile_cons_of_neg (by simpa using hd)]
  rfl

/-- Behind delimiters that all lie before an offset the others tell of it. -/
theorem stateOver_append (hds : ∀ d ∈ ds, d.offset ≤ p) :
    stateOver inside (ds ++ es) p = stateOver (stateFrom inside ds) es p := by
  rw [stateOver, List.takeWhile_append_of_pos (by simpa using hds), stateFrom_append]
  rfl

/-- Delimiters behind an offset do not tell of it. -/
theorem stateOver_append_of_lt (hes : ∀ d ∈ es, p < d.offset) :
    stateOver inside (ds ++ es) p = stateOver inside ds p := by
  induction ds generalizing inside with
  | nil =>
    cases es with
    | nil => rfl
    | cons d es =>
      have hd := hes d List.mem_cons_self
      exact stateOver_cons_of_lt hd
  | cons d ds ih =>
    rw [List.cons_append]
    by_cases hd : d.offset ≤ p
    · rw [stateOver_cons_of_le hd, stateOver_cons_of_le hd]
      exact ih
    · rw [stateOver_cons_of_lt (by omega), stateOver_cons_of_lt (by omega)]

theorem Alternate.pairwise {low : Nat} (h : Alternate low inside ds) :
    ds.Pairwise fun d e => d.offset ≤ e.offset := by
  induction ds generalizing low inside with
  | nil => exact .nil
  | cons d ds ih =>
    refine List.pairwise_cons.2 ⟨fun e he => ?_, ih h.2.2⟩
    have hlt := h.2.2.lt_rank e he
    simp only [rank] at hlt
    split at hlt <;> split at hlt <;> omega

theorem offset_le_of_rank_le {m : Nat} (h : d.rank ≤ 2 * m) : d.offset ≤ m := by
  simp only [rank] at h
  split at h <;> omega

theorem le_offset_of_lt_rank {m : Nat} (h : 2 * m < d.rank) : m ≤ d.offset := by
  simp only [rank] at h
  split at h <;> omega

theorem Alternate.le_offset {m : Nat} (h : Alternate (2 * m) inside ds) :
    ∀ d ∈ ds, m ≤ d.offset := fun d hd => le_offset_of_lt_rank (h.lt_rank d hd)

/-- Behind the first delimiter it does not matter in which state they begin. -/
theorem stateOver_of_reached (hds : ds.Pairwise fun d e => d.offset ≤ e.offset) (hd : d ∈ ds)
    (hp : d.offset ≤ p) : stateOver inside ds p = stateOver inside' ds p := by
  cases ds with
  | nil => cases hd
  | cons c ds =>
    have hc : c.offset ≤ p := by
      rcases List.mem_cons.1 hd with rfl | hd
      · exact hp
      · exact ((List.pairwise_cons.1 hds).1 d hd).trans hp
    rw [stateOver_cons_of_le hc, stateOver_cons_of_le hc]

/-- Of an offset behind one of them, the last of some delimiters tell the same as all. -/
theorem stateOver_of_suffix (hds : ds.Pairwise fun d e => d.offset ≤ e.offset) (hes : es <:+ ds)
    (hd : d ∈ es) (hp : d.offset ≤ p) : stateOver inside es p = stateOver inside' ds p := by
  obtain ⟨before, rfl⟩ := hes
  obtain ⟨-, hsorted, hbefore⟩ := List.pairwise_append.1 hds
  rw [stateOver_append fun c hc => (hbefore c hc d hd).trans hp]
  exact stateOver_of_reached hsorted hd hp

/-- Of an offset before one of them, the first of some delimiters tell the same as all. -/
theorem stateOver_truncate (hds : ds.Pairwise fun d e => d.offset ≤ e.offset) (hes : es <+: ds)
    (hd : d ∈ es) (hp : p < d.offset) : stateOver inside es p = stateOver inside ds p := by
  obtain ⟨behind, rfl⟩ := hes
  obtain ⟨-, -, hbehind⟩ := List.pairwise_append.1 hds
  symm
  apply stateOver_append_of_lt
  intro c hc
  have := hbehind d hd c hc
  omega

/-- A delimiter behind an offset may be left out. -/
theorem stateOver_init (hp : p < e.offset) :
    stateOver inside (if e.opens then es else es ++ [e]) p = stateOver inside (es ++ [e]) p := by
  split
  · symm
    apply stateOver_append_of_lt
    simpa using hp
  · rfl

end Delimiter

theorem DelimiterTable.stateAt_eq_stateOver (T : DelimiterTable) (p : Nat) :
    T.stateAt p = stateOver none T.entries p := Highlighter.stateAt_eq T p

namespace DelimiterTable

variable {T : DelimiterTable} {ds : List Delimiter}

theorem suffix_finishBatch (hT : T.oldEntries <:+ ds) (stop : Nat) (all : Bool) :
    (T.finishBatch stop all).oldEntries <:+ ds := by
  rcases T.oldEntries_finishBatch stop all with hnone | hsome
  · rw [hnone]
    exact List.nil_suffix
  · rw [hsome]
    exact (List.dropWhile_suffix _).trans hT

end DelimiterTable

namespace Highlighter

/-! What a batch leaves of the states -/

variable {h g : Highlighter} {t : Text} {f needed p : Nat}

/-- What is found or taken over in a batch lies behind the frontier at which it began. -/
theorem alternate_behind {before behind cs rest : List Delimiter} {d : Delimiter}
    (hT : h.table.Sound t h.keys)
    (hfound : Alternate (2 * f) (stateAfter h.table.entries) (before ++ d :: behind))
    (hold : h.table.oldEntries = cs ++ d :: rest) :
    Alternate (2 * f) (stateAfter h.table.entries) (before ++ d :: rest) := by
  obtain ⟨state, holder⟩ := hT.old
  rw [hold] at holder
  exact hfound.splice holder

/-- A batch leaves the states before the frontier. -/
theorem stateAt_build_of_lt (hT : h.table.Sound t h.keys) (hp : p < h.table.frontier.reach t) :
    (h.build t needed).table.stateAt p = h.table.stateAt p := by
  cases hf : h.table.frontier with
  | complete => rw [build, hf]
  | pending f =>
    have hfle : f ≤ t.length := by
      have := hT.reach_le
      rwa [hf] at this
    rw [hf, Frontier.reach] at hp
    obtain ⟨hfound, -⟩ := Chunk.alternate_collect (h.le_batchStop needed hfle).1
      (t.nextLineStart_le _) h.escape (delimitedOf h.patterns) h.table.lastState
    simp only [stateAt_eq_stateOver]
    rcases h.build_cases t needed hf rfl with
      ⟨before, d, behind, cs, rest, es, e, hbefore, hold, hes, hlt, hbuild⟩ | ⟨old, -, hbuild⟩
    · rw [hbefore] at hfound
      have hbehind := (alternate_behind hT hfound hold).le_offset
      rw [hbuild]
      dsimp only
      rw [stateOver_init (by omega), ← hes, List.append_assoc]
      apply stateOver_append_of_lt
      intro c hc
      exact Nat.lt_of_lt_of_le hp (hbehind c hc)
    · rw [hbuild]
      apply stateOver_append_of_lt
      intro c hc
      exact Nat.lt_of_lt_of_le hp (hfound.le_offset c hc)

/-- Where a batch goes beyond its own end, the states are those of the old delimiters. -/
theorem stateAt_build_of_le (hT : h.table.Sound t h.keys) (hf : h.table.frontier = .pending f)
    (hp : h.batchStop t f needed ≤ p) (hreach : p < (h.build t needed).table.frontier.reach t) :
    (∃ d ∈ h.table.oldEntries, d.offset ≤ p) ∧ (∃ d ∈ h.table.oldEntries, p < d.offset) ∧
      (h.build t needed).table.stateAt p = stateOver none h.table.oldEntries p := by
  have hfle : f ≤ t.length := by
    have := hT.reach_le
    rwa [hf] at this
  have hstop : h.batchStop t f needed ≤ t.length := t.nextLineStart_le _
  obtain ⟨hfound, hin⟩ := Chunk.alternate_collect (h.le_batchStop needed hfle).1 hstop h.escape
    (delimitedOf h.patterns) h.table.lastState
  rcases h.build_cases t needed hf rfl with
    ⟨before, d, behind, cs, rest, es, e, hbefore, hold, hes, hlt, hbuild⟩ | ⟨old, -, hbuild⟩
  · rw [hbuild, Frontier.reach] at hreach
    rw [hbefore] at hfound hin
    have hd : d.offset ≤ p :=
      (offset_le_of_rank_le (hin d (by simp)).1).trans hp
    have he : e ∈ d :: rest := by
      have hlast := congrArg List.getLast? hes
      rw [List.getLast?_append_cons, List.getLast?_append_cons] at hlast
      exact List.mem_of_getLast? hlast
    obtain ⟨state, holder⟩ := hT.old
    obtain ⟨hall, -⟩ := hT.splice hf hfound hin hstop rfl hold
    have hboth : (d :: rest) <:+ h.table.entries ++ before ++ d :: rest := ⟨_, rfl⟩
    have hsuffix : (d :: rest) <:+ h.table.oldEntries := ⟨cs, hold.symm⟩
    have hmem := hsuffix.subset
    refine ⟨⟨d, hmem List.mem_cons_self, hd⟩, ⟨e, hmem he, hreach⟩, ?_⟩
    rw [stateAt_eq_stateOver, hbuild]
    dsimp only
    rw [stateOver_init hreach, ← hes]
    have htold : stateOver none (d :: rest) p = stateOver none h.table.oldEntries p :=
      stateOver_of_suffix holder.pairwise hsuffix List.mem_cons_self hd
    rw [← htold]
    exact (stateOver_of_suffix hall.pairwise hboth List.mem_cons_self hd).symm
  · rw [hbuild, reach_finishBatch _ hstop] at hreach
    omega

/-- A batch finds no old delimiters. -/
theorem oldEntries_build (h : Highlighter) (t : Text) (needed : Nat) :
    (h.build t needed).table.oldEntries <:+ h.table.oldEntries := by
  cases hf : h.table.frontier with
  | complete =>
    have hsame : h.build t needed = h := by rw [build, hf]
    simp only [hsame, List.suffix_rfl]
  | pending f =>
    rcases h.build_cases t needed hf rfl with
      ⟨before, d, behind, cs, rest, es, e, -, -, -, -, hbuild⟩ | ⟨old, hold, hbuild⟩
    · rw [hbuild]
      exact List.nil_suffix
    · rw [hbuild]
      exact suffix_finishBatch (suffix_elim hold) _ _

end Highlighter
end CodeBuffer
