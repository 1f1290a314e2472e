import CodeBuffer.Text.Line

namespace CodeBuffer
namespace Text

/-- Nothing, or a text that ends with a line break. -/
def Closed (t : Text) : Prop := t = [] ∨ ∃ c, t.getLast? = some c ∧ isLineBreak c = true

/-- An offset behind a line break, or at an end of the text. -/
def IsSeam (t : Text) (o : Nat) : Prop := t.length ≤ o ∨ Closed (t.take o)

theorem closed_take {t : Text} {o : Nat} {c : Char} (h : t[o]? = some c)
    (hc : isLineBreak c = true) : Closed (t.take (o + 1)) := by
  refine .inr ⟨c, ?_, hc⟩
  have := (List.getElem?_eq_some_iff.1 h).1
  rw [List.getLast?_eq_getElem?, List.length_take, Nat.min_eq_left (by omega), Nat.add_sub_cancel,
    List.getElem?_take_of_lt (by omega), h]

/-- The last character of a closed part of a text. -/
theorem Closed.lineBreak {t : Text} {o : Nat} (h : Closed (t.take o)) (hpos : 0 < o)
    (ho : o ≤ t.length) : ∃ c, t[o - 1]? = some c ∧ isLineBreak c = true := by
  rcases h with h | ⟨c, hc, hbreak⟩
  · have := congrArg List.length h
    simp only [List.length_take, List.length_nil] at this
    omega
  · refine ⟨c, ?_, hbreak⟩
    rw [List.getLast?_eq_getElem?, List.length_take, Nat.min_eq_left ho,
      List.getElem?_take_of_lt (by omega)] at hc
    exact hc

/-- In front of a line start stands a line break. -/
theorem lineBreak_of_mem_startsFrom {o s : Nat} {t : Text} (h : s ∈ t.startsFrom o) :
    ∃ c, t[s - o - 1]? = some c ∧ isLineBreak c = true := by
  induction t generalizing o with
  | nil => simp [startsFrom] at h
  | cons c rest ih =>
    have later (hs : s ∈ startsFrom (o + 1) rest) :
        ∃ d, (c :: rest)[s - o - 1]? = some d ∧ isLineBreak d = true := by
      obtain ⟨d, hd, hbreak⟩ := ih hs
      have := (startsFrom_bounds hs).1
      rw [show s - o - 1 = (s - (o + 1) - 1) + 1 by omega, List.getElem?_cons_succ]
      exact ⟨d, hd, hbreak⟩
    rw [startsFrom] at h
    split at h
    · rename_i hc
      rcases List.mem_cons.1 h with rfl | hs
      · rw [show o + 1 - o - 1 = 0 by omega]
        exact ⟨c, rfl, (Bool.and_eq_true_iff.1 hc).1⟩
      · exact later hs
    · exact later h

theorem closed_of_mem_lineStarts {t : Text} {s : Nat} (h : s ∈ t.lineStarts) :
    Closed (t.take s) := by
  rcases List.mem_cons.1 h with rfl | hs
  · exact .inl rfl
  · obtain ⟨c, hc, hbreak⟩ := lineBreak_of_mem_startsFrom hs
    have := (startsFrom_bounds hs).1
    have := closed_take hc hbreak
    rwa [show s - 0 - 1 + 1 = s by omega] at this

/-- In an ascending list the elements up to a bound come first. -/
theorem lt_countP_iff {ss : List Nat} (h : ss.Pairwise (· < ·)) (o : Nat) {i : Nat}
    (hi : i < ss.length) : i < ss.countP (fun s => decide (s ≤ o)) ↔ ss[i] ≤ o := by
  induction ss generalizing i with
  | nil => simp at hi
  | cons s ss ih =>
    obtain ⟨hhead, htail⟩ := List.pairwise_cons.1 h
    by_cases hs : s ≤ o
    · rw [List.countP_cons_of_pos (by simpa using hs)]
      cases i with
      | zero => simp [hs]
      | succ i => simpa using ih htail (by simpa using hi)
    · have none_fits : ss.countP (fun s => decide (s ≤ o)) = 0 := by
        apply List.countP_eq_zero.2
        intro s' hs'
        have := hhead s' hs'
        simp only [decide_eq_true_eq]
        omega
      rw [List.countP_cons_of_neg (by simpa using hs), none_fits]
      have : s ≤ (s :: ss)[i] := by
        cases i with
        | zero => exact Nat.le_refl _
        | succ i => exact Nat.le_of_lt (hhead _ (List.getElem_mem _))
      omega

section
variable (t : Text) (o : Nat)

theorem lineCount_eq : t.lineCount = (t.startsFrom 0).length + 1 := rfl

theorem lineOf_le : t.lineOf o ≤ (t.startsFrom 0).length := List.countP_le_length

theorem lt_lineOf_iff {i : Nat} (hi : i < (t.startsFrom 0).length) :
    i < t.lineOf o ↔ (t.startsFrom 0)[i] ≤ min o t.length :=
  lt_countP_iff (pairwise_startsFrom 0 t) (min o t.length) hi

theorem lineStarts_getElem? {line : Nat} (h : line ≤ (t.startsFrom 0).length) :
    t.lineStarts[line]? = some (t.lineStart line) := by
  have hlen : t.lineStarts.length = (t.startsFrom 0).length + 1 := rfl
  have hmin : min line (t.lineCount - 1) = line := by
    rw [lineCount_eq]
    omega
  have hstart : t.lineStart line = t.lineStarts.getD line 0 :=
    congrArg (t.lineStarts.getD · 0) hmin
  rw [hstart, List.getD_eq_getElem?_getD, List.getElem?_eq_getElem (by omega), Option.getD_some]

theorem lineStartOf_mem : t.lineStartOf o ∈ t.lineStarts :=
  List.mem_of_getElem? (t.lineStarts_getElem? (t.lineOf_le o))

theorem closed_lineStartOf : Closed (t.take (t.lineStartOf o)) :=
  closed_of_mem_lineStarts (t.lineStartOf_mem o)

theorem isSeam_lineStartOf : t.IsSeam (t.lineStartOf o) := .inr (t.closed_lineStartOf o)

theorem lineStartOf_le : t.lineStartOf o ≤ min o t.length := by
  have hstart := t.lineStarts_getElem? (t.lineOf_le o)
  rw [← lineStartOf] at hstart
  cases hk : t.lineOf o with
  | zero =>
    rw [hk] at hstart
    have : 0 = t.lineStartOf o := Option.some.inj hstart
    omega
  | succ k =>
    have hlt := t.lineOf_le o
    rw [hk, lineStarts, List.getElem?_cons_succ, List.getElem?_eq_getElem (by omega)] at hstart
    rw [← Option.some.inj hstart, ← t.lt_lineOf_iff o (by omega)]
    omega

/-- The next line start is one behind the offset, or the end of the text. -/
theorem nextLineStart_cases :
    (min o t.length < t.nextLineStart o ∧ t.nextLineStart o ∈ t.lineStarts) ∨
      t.nextLineStart o = t.length := by
  rw [nextLineStart, lineStop]
  split
  · rename_i hlast
    have hlt : t.lineOf o < (t.startsFrom 0).length := by
      simpa [lineCount_eq] using hlast
    have hstart := t.lineStarts_getElem? hlt
    refine .inl ⟨?_, List.mem_of_getElem? hstart⟩
    rw [lineStarts, List.getElem?_cons_succ, List.getElem?_eq_getElem hlt] at hstart
    rw [← Option.some.inj hstart]
    have := t.lt_lineOf_iff o hlt
    omega
  · exact .inr rfl

theorem isSeam_nextLineStart : t.IsSeam (t.nextLineStart o) := by
  rcases t.nextLineStart_cases o with ⟨-, hmem⟩ | hlen
  · exact .inr (closed_of_mem_lineStarts hmem)
  · exact .inl (by omega)

theorem nextLineStart_le : t.nextLineStart o ≤ t.length := by
  rcases t.nextLineStart_cases o with ⟨-, hmem⟩ | hlen
  · exact le_length_of_mem_lineStarts hmem
  · omega

theorem le_nextLineStart (ho : o ≤ t.length) : o ≤ t.nextLineStart o := by
  rcases t.nextLineStart_cases o with ⟨hlt, -⟩ | hlen <;> omega

theorem lt_nextLineStart (ho : o < t.length) : o < t.nextLineStart o := by
  rcases t.nextLineStart_cases o with ⟨hlt, -⟩ | hlen <;> omega

theorem lineBoundary_length : t.lineBoundary t.length = t.length := by
  have hle := t.le_nextLineStart t.length (Nat.le_refl _)
  have hge := t.nextLineStart_le t.length
  rw [lineBoundary]
  split
  · rfl
  · omega

end
end Text
end CodeBuffer
