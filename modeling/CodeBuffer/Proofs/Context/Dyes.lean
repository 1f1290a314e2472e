import CodeBuffer.Proofs.Context.States

namespace CodeBuffer

open Delimiter DelimiterTable

namespace Highlighter

/-- Text in a state has the tag of that name, be it one of a pattern or of a context class. -/
def Dyes (h : Highlighter) (n : String) (state : Option PatternKey) : Prop :=
  ∃ key ∈ state, ∃ q, (delimitedOf h.patterns).find? (·.key == key) = some q ∧
    (q.id = n ∨ ∃ c, q.contextClass = some c ∧ Document.classTagName c = n)

/-- No simple pattern has the name. -/
def Reserves (h : Highlighter) (n : String) : Prop := ∀ q ∈ simpleOf h.patterns, q.id ≠ n

variable {h h' : Highlighter} {n : String} {p : Nat}

theorem dyes_congr (hpatterns : h'.patterns = h.patterns) {state : Option PatternKey} :
    h'.Dyes n state ↔ h.Dyes n state := by
  rw [Dyes, Dyes, hpatterns]

/-- The strokes in a span put the tag of a reserved name on all of it or on nothing. -/
theorem marks_spanStrokes (hn : h.Reserves n) (place : Place) (span : Span) :
    (∃ k ∈ h.spanStrokes place span, k.Marks n p) ↔
      (span.start ≤ p ∧ p < span.stop) ∧ h.Dyes n span.key := by
  obtain ⟨start, stop, key⟩ := span
  cases key with
  | some key =>
    constructor
    · rintro ⟨k, hk, hname, hp⟩
      obtain ⟨q, hq, rfl | ⟨c, hc, rfl⟩⟩ := mem_spanStrokes_some.1 hk
      · exact ⟨hp, key, rfl, q, hq, .inl hname⟩
      · exact ⟨hp, key, rfl, q, hq, .inr ⟨c, hc, hname⟩⟩
    · rintro ⟨hp, key', hkey, q, hq, hname⟩
      obtain rfl := Option.some.inj hkey
      rcases hname with hname | ⟨c, hc, hname⟩
      · exact ⟨_, mem_spanStrokes_some.2 ⟨q, hq, .inl rfl⟩, hname, hp⟩
      · exact ⟨_, mem_spanStrokes_some.2 ⟨q, hq, .inr ⟨c, hc, rfl⟩⟩, hname, hp⟩
  | none =>
    constructor
    · rintro ⟨k, hk, hname, -⟩
      simp only [spanStrokes, List.mem_map] at hk
      obtain ⟨m, hm, rfl⟩ := hk
      rw [SimpleMatch.collect_eq] at hm
      exact absurd hname (hn m.pattern (SimpleMatch.mem_walk hm).1)
    · rintro ⟨-, key, hkey, -⟩
      cases hkey

theorem marks_strokes (hn : h.Reserves n) (place : Place) (spans : List Span) :
    (∃ k ∈ h.strokes place spans, k.Marks n p) ↔
      ∃ span ∈ spans, (span.start ≤ p ∧ p < span.stop) ∧ h.Dyes n span.key := by
  induction spans generalizing place with
  | nil => simp [strokes]
  | cons span spans ih =>
    rw [List.exists_mem_cons_iff]
    simp only [strokes, List.mem_append, or_and_right, exists_or]
    exact or_congr (marks_spanStrokes hn place span) (ih _)

/-- What the spans say before the first delimiter, and behind it. -/
theorem exists_mem_cut_cons {pos stop : Nat} {inside : Option PatternKey} {d : Delimiter}
    {ds : List Delimiter} (hd : pos ≤ d.offset) (P : Option PatternKey → Prop) :
    (∃ span ∈ cut pos stop inside (d :: ds), (span.start ≤ p ∧ p < span.stop) ∧ P span.key) ↔
      ((pos ≤ p ∧ p < min d.offset stop) ∧ P inside) ∨
        ∃ span ∈ cut d.offset stop d.key ds, (span.start ≤ p ∧ p < span.stop) ∧ P span.key := by
  rw [cut]
  split
  · rw [cut_eq_nil (by omega) d.key ds]
    simp only [List.not_mem_nil, false_and, exists_false, or_false, false_iff, not_and]
    omega
  · split
    · rename_i hbehind
      rw [cut_eq_nil hbehind d.key ds, Nat.min_eq_right hbehind]
      simp
    · rename_i hbefore
      rw [Nat.min_eq_left (by omega)]
      split
      · rw [List.exists_mem_cons_iff]
      · refine (or_iff_right ?_).symm
        omega

/-- Spans that begin in a state tell of every offset in their range. -/
theorem exists_mem_cut {pos stop : Nat} {inside : Option PatternKey} {ds : List Delimiter}
    (hds : Ascending pos ds) (P : Option PatternKey → Prop) :
    (∃ span ∈ cut pos stop inside ds, (span.start ≤ p ∧ p < span.stop) ∧ P span.key) ↔
      (pos ≤ p ∧ p < stop) ∧ P (stateOver inside ds p) := by
  induction ds generalizing pos inside with
  | nil =>
    rw [cut]
    split
    · simp
    · simp only [List.not_mem_nil, false_and, exists_false, false_iff, not_and]
      omega
  | cons d ds ih =>
    obtain ⟨hd, hds⟩ := ascending_cons.1 hds
    rw [exists_mem_cut_cons hd, ih hds]
    by_cases hle : d.offset ≤ p
    · rw [stateOver_cons_of_le hle, or_iff_right (by omega)]
      exact and_congr_left fun _ => by omega
    · rw [stateOver_cons_of_lt (by omega), or_iff_left (by omega)]
      exact and_congr_left fun _ => by omega

/-- The spans of a range tell of every offset in it what the table tells. -/
theorem exists_mem_spans {T : DelimiterTable}
    (hT : T.entries.Pairwise fun d e => d.offset ≤ e.offset) {a b : Nat}
    (P : Option PatternKey → Prop) :
    (∃ span ∈ T.spans a b, (span.start ≤ p ∧ p < span.stop) ∧ P span.key) ↔
      (a ≤ p ∧ p < b) ∧ P (T.stateAt p) := by
  rw [spans, exists_mem_cut (ascending_dropWhile hT a)]
  refine and_congr_right fun hp => ?_
  have hle (d : Delimiter) (hd : decide (d.offset ≤ a) = true) : decide (d.offset ≤ p) = true := by
    rw [decide_eq_true_eq] at hd ⊢
    omega
  rw [stateOver, stateAt_eq, ← stateFrom_append, takeWhile_append_takeWhile hle, ← stateAt_eq]

/-- To highlight a range puts the tag of a reserved name on an offset where the state there has
it. -/
theorem marks_strokes_spans (hn : h.Reserves n) {T : DelimiterTable}
    (hT : T.entries.Pairwise fun d e => d.offset ≤ e.offset) (place : Place) {a b : Nat} :
    (∃ k ∈ h.strokes place (T.spans a b), k.Marks n p) ↔
      (a ≤ p ∧ p < b) ∧ h.Dyes n (T.stateAt p) := by
  rw [marks_strokes hn, exists_mem_spans hT]

end Highlighter
end CodeBuffer
