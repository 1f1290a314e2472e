import CodeBuffer.Highlighter.Analysis
import CodeBuffer.Proofs.Plain.Chunk

namespace CodeBuffer

open Delimiter DelimiterTable

/-- The offset before which a text is analysed. -/
def Frontier.reach (t : Text) : Frontier → Nat
  | complete => t.length
  | pending f => f

theorem drop_length_takeWhile {α : Type} (p : α → Bool) (l : List α) :
    l.drop (l.takeWhile p).length = l.dropWhile p := by
  have hall : (l.takeWhile p ++ l.dropWhile p).drop (l.takeWhile p).length = l.dropWhile p :=
    List.drop_left
  rwa [List.takeWhile_append_dropWhile] at hall

namespace DelimiterTable

/-- The delimiters that wait to be found again. -/
def oldEntries (T : DelimiterTable) : List Delimiter := T.old.elim [] (·.entries)

/-- What is kept of the old delimiters are the last of them. -/
theorem suffix_elim {old : Option Leftovers} {ds : List Delimiter}
    (hold : ∀ o ∈ old, o.entries <:+ ds) : old.elim [] (·.entries) <:+ ds := by
  cases old with
  | none => exact List.nil_suffix
  | some o => exact hold o rfl

/-- What taking in a delimiter comes to: the old table takes over behind it, its last entry left
out if that is an opener, or the delimiter is appended and at most some old ones are dropped. -/
theorem push_cases (T : DelimiterTable) (d : Delimiter) (start : Nat) :
    (∃ cs rest es e, T.oldEntries = cs ++ d :: rest ∧ T.entries ++ d :: rest = es ++ [e] ∧
      start < e.offset ∧
        T.push d start = (true, ⟨if e.opens then es else es ++ [e], none, .pending e.offset⟩)) ∨
      ∃ old : Option Leftovers, (∀ o ∈ old, o.entries <:+ T.oldEntries) ∧
        T.push d start = (false, { T with entries := T.entries ++ [d], old }) := by
  obtain ⟨entries, old, frontier⟩ := T
  cases old with
  | none => exact .inr ⟨none, by simp, rfl⟩
  | some old =>
    simp only [push, oldEntries, Option.elim_some]
    generalize hskip : (old.entries.takeWhile _).length = skipped
    have hcut : old.entries = old.entries.take skipped ++ old.entries.drop skipped :=
      (List.take_append_drop _ _).symm
    have hsuffix : old.entries.drop skipped <:+ old.entries := List.drop_suffix _ _
    generalize old.entries.drop skipped = left at hcut hsuffix
    cases left with
    | nil =>
      refine .inr ⟨_, ?_, rfl⟩
      intro o ho
      split at ho <;> simp at ho
      exact ho ▸ List.nil_suffix
    | cons e rest =>
      simp only
      by_cases hfound : e = d
      · subst hfound
        rw [if_pos rfl]
        split
        · exact .inr ⟨none, by simp, rfl⟩
        · rename_i hlast
          rcases List.eq_nil_or_concat rest with rfl | ⟨r, last, rfl⟩
          · refine .inl ⟨_, [], entries, e, hcut, rfl, by simpa using hlast, ?_⟩
            cases hopens : e.opens <;> simp [hopens]
          · have hsplit : entries ++ [e] ++ r.concat last = entries ++ e :: r ++ [last] := by simp
            refine .inl ⟨_, _, entries ++ e :: r, last, hcut, by simp, by simpa using hlast, ?_⟩
            rw [hsplit, List.getLast?_concat, List.dropLast_concat]
            simp
      · rw [if_neg hfound]
        refine .inr ⟨_, ?_, rfl⟩
        intro o ho
        split at ho <;> simp at ho
        exact ho ▸ hsuffix

/-- What taking in a batch comes to, in the same way. -/
theorem pushAll_cases (T : DelimiterTable) (start : Nat) (found : List Delimiter) :
    (∃ before d behind cs rest es e, found = before ++ d :: behind ∧
      T.oldEntries = cs ++ d :: rest ∧ T.entries ++ before ++ d :: rest = es ++ [e] ∧
      start < e.offset ∧ T.pushAll start found =
        (true, ⟨if e.opens then es else es ++ [e], none, .pending e.offset⟩)) ∨
      ∃ old : Option Leftovers, (∀ o ∈ old, o.entries <:+ T.oldEntries) ∧
        T.pushAll start found = (false, { T with entries := T.entries ++ found, old }) := by
  induction found generalizing T with
  | nil => exact .inr ⟨T.old, by rintro o ho; simp_all [oldEntries], by simp [pushAll]⟩
  | cons d found ih =>
    rw [pushAll]
    split
    · rename_i hnone
      rw [Option.isNone_iff_eq_none] at hnone
      exact .inr ⟨none, by simp, by rw [← hnone]⟩
    · rcases T.push_cases d start with
        ⟨cs, rest, es, e, hold, hes, hlast, hpush⟩ | ⟨old, hsuffix, hpush⟩
      · rw [hpush]
        exact .inl ⟨[], d, found, cs, rest, es, e, rfl, hold, by simpa using hes, hlast, rfl⟩
      · rw [hpush]
        have hold' : ({ T with entries := T.entries ++ [d], old } : DelimiterTable).oldEntries <:+
            T.oldEntries := suffix_elim hsuffix
        rcases ih { T with entries := T.entries ++ [d], old } with
          ⟨before, d', behind, cs, rest, es, e, rfl, hold, hes, hlast, hresult⟩ |
            ⟨old', hsuffix', hresult⟩
        · obtain ⟨left, hleft⟩ := hold'
          refine .inl
            ⟨d :: before, d', behind, left ++ cs, rest, es, e, rfl, ?_, ?_, hlast, hresult⟩
          · rw [← hleft, hold, List.append_assoc]
          · simpa using hes
        · refine .inr ⟨old', fun o ho => (hsuffix' o ho).trans hold', ?_⟩
          simpa using hresult

/-- A batch that goes to its end analyses up to there. -/
theorem reach_finishBatch (T : DelimiterTable) {t : Text} {stop : Nat} (hstop : stop ≤ t.length) :
    (T.finishBatch stop (decide (t.length ≤ stop))).frontier.reach t = stop := by
  simp only [finishBatch]
  split
  · rename_i hall
    exact Nat.le_antisymm (of_decide_eq_true hall) hstop
  · rfl

theorem covers_finishBatch (T : DelimiterTable) (complete : Bool) {n stop : Nat} (hn : n ≤ stop) :
    (T.finishBatch stop complete).frontier.covers n = true := by
  cases complete with
  | true => rfl
  | false => exact decide_eq_true hn

theorem oldEntries_finishBatch (T : DelimiterTable) (stop : Nat) (complete : Bool) :
    (T.finishBatch stop complete).oldEntries = [] ∨
      (T.finishBatch stop complete).oldEntries = T.oldEntries.dropWhile (withinLines stop) := by
  obtain ⟨entries, old, frontier⟩ := T
  cases old with
  | none => exact .inl rfl
  | some old =>
    simp only [finishBatch, oldEntries, Option.bind_some, beforeLine_eq, Option.elim_some]
    split
    · exact .inl rfl
    · exact .inr (drop_length_takeWhile _ _)

end DelimiterTable
end CodeBuffer
