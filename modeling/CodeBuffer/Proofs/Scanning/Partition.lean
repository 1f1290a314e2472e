import CodeBuffer.Proofs.Scanning.Lines
import Mathlib.Order.Bounds.Basic

namespace CodeBuffer
namespace Text

/-! Lines as they are counted, and lines as they are read off the characters. -/

/-- What ends a line: a line break, or a return and its feed. -/
def IsTerminator (u : Text) : Prop := u = ['\r', '\n'] ∨ ∃ c, isLineBreak c = true ∧ u = [c]

/-- A line ends with the character at an offset. A return does not end it if its feed follows. -/
def BreaksAt (t : Text) (i : Nat) : Prop :=
  ∃ c, t[i]? = some c ∧ isLineBreak c = true ∧ ¬(c = '\r' ∧ t[i + 1]? = some '\n')

/-- An offset at which a line begins. -/
def IsLineStart (t : Text) (s : Nat) : Prop := ∃ l < t.lineCount, t.lineStart l = s

/-- The first line start with a property, or the end of the text if there is none. -/
def IsFirstStart (t : Text) (P : Nat → Prop) (s : Nat) : Prop :=
  IsLeast {s | t.IsLineStart s ∧ P s} s ∨ (∀ s, t.IsLineStart s → ¬P s) ∧ s = t.length

theorem breaksAt_succ {c : Char} {t : Text} {i : Nat} :
    BreaksAt (c :: t) (i + 1) ↔ BreaksAt t i := by
  simp only [BreaksAt, List.getElem?_cons_succ]

theorem breaksAt_zero {c : Char} {t : Text} :
    BreaksAt (c :: t) 0 ↔ (isLineBreak c && !(c == '\r' && t.head? == some '\n')) = true := by
  simp only [BreaksAt, List.getElem?_cons_zero, List.getElem?_cons_succ, Option.some.injEq,
    List.head?_eq_getElem?, Bool.and_eq_true, Bool.not_eq_true', Bool.and_eq_false_imp, beq_iff_eq,
    beq_eq_false_iff_ne, exists_eq_left', not_and, ne_eq]

theorem mem_startsFrom_iff {o s : Nat} {t : Text} :
    s ∈ t.startsFrom o ↔ ∃ i, t.BreaksAt i ∧ s = o + i + 1 := by
  induction t generalizing o with
  | nil => simp [startsFrom, BreaksAt]
  | cons c rest ih =>
    have later : s ∈ startsFrom (o + 1) rest ↔
        ∃ i, BreaksAt (c :: rest) (i + 1) ∧ s = o + (i + 1) + 1 := by
      rw [ih]
      simp only [breaksAt_succ]
      grind
    have hcases : (∃ i, BreaksAt (c :: rest) i ∧ s = o + i + 1) ↔
        (BreaksAt (c :: rest) 0 ∧ s = o + 1) ∨ s ∈ startsFrom (o + 1) rest := by
      rw [later]
      constructor
      · rintro ⟨i, hi, rfl⟩
        cases i with
        | zero => exact .inl ⟨hi, rfl⟩
        | succ i => exact .inr ⟨i, hi, rfl⟩
      · rintro (⟨hzero, rfl⟩ | ⟨i, hi, rfl⟩)
        · exact ⟨0, hzero, rfl⟩
        · exact ⟨i + 1, hi, rfl⟩
    rw [hcases, startsFrom]
    split
    · rename_i hbreak
      rw [List.mem_cons, and_iff_right (breaksAt_zero.2 hbreak)]
    · rename_i hbreak
      rw [or_iff_right fun h => hbreak (breaksAt_zero.1 h.1)]

/-- Behind every line break a line begins, at most one character later. -/
theorem exists_start_of_break {t : Text} {i : Nat} {c : Char} (hi : t[i]? = some c)
    (hc : isLineBreak c = true) :
    t.BreaksAt i ∨ c = '\r' ∧ t[i + 1]? = some '\n' ∧ t.BreaksAt (i + 1) := by
  by_cases hpair : c = '\r' ∧ t[i + 1]? = some '\n'
  · exact .inr ⟨hpair.1, hpair.2, '\n', hpair.2, rfl, by simp⟩
  · exact .inl ⟨c, hi, hc, hpair⟩

section
variable {t : Text} {l l' o s i : Nat}

theorem lineStart_zero (t : Text) : t.lineStart 0 = 0 :=
  (Option.some.inj (t.lineStarts_getElem? (Nat.zero_le _))).symm

theorem lineStarts_getElem (h : l < t.lineStarts.length) : t.lineStarts[l] = t.lineStart l :=
  (List.getElem_eq_iff h).2 (t.lineStarts_getElem? (Nat.le_of_lt_succ h))

theorem isLineStart_iff_mem : t.IsLineStart s ↔ s ∈ t.lineStarts := by
  rw [List.mem_iff_getElem]
  constructor
  · rintro ⟨l, hl, rfl⟩
    exact ⟨l, hl, lineStarts_getElem hl⟩
  · rintro ⟨l, hl, rfl⟩
    exact ⟨l, hl, (lineStarts_getElem hl).symm⟩

theorem isLineStart_iff : t.IsLineStart s ↔ s = 0 ∨ ∃ i, t.BreaksAt i ∧ s = i + 1 := by
  rw [isLineStart_iff_mem, lineStarts, List.mem_cons, mem_startsFrom_iff]
  simp only [Nat.zero_add]

theorem IsLineStart.le_length (h : t.IsLineStart s) : s ≤ t.length :=
  le_length_of_mem_lineStarts (isLineStart_iff_mem.1 h)

theorem isLineStart_succ (h : t.BreaksAt i) : t.IsLineStart (i + 1) :=
  isLineStart_iff.2 (.inr ⟨i, h, rfl⟩)

theorem lineStart_lt (h : l < l') (h' : l' < t.lineCount) : t.lineStart l < t.lineStart l' := by
  rw [← lineStarts_getElem h', ← lineStarts_getElem (Nat.lt_trans h h')]
  exact List.pairwise_iff_getElem.1 (pairwise_lineStarts t) l l' _ _ h

theorem lineStart_le (h : l ≤ l') (h' : l' < t.lineCount) : t.lineStart l ≤ t.lineStart l' := by
  rcases Nat.lt_or_eq_of_le h with hlt | rfl
  · exact Nat.le_of_lt (lineStart_lt hlt h')
  · exact Nat.le_refl _

theorem lineStart_le_length (h : l < t.lineCount) : t.lineStart l ≤ t.length :=
  IsLineStart.le_length ⟨l, h, rfl⟩

theorem lineOf_lt (t : Text) (o : Nat) : t.lineOf o < t.lineCount :=
  Nat.lt_succ_of_le (t.lineOf_le o)

/-- An offset is on a line behind another one exactly if that line has begun. -/
theorem le_lineOf_iff (ho : o ≤ t.length) (hl : l < t.lineCount) :
    l ≤ t.lineOf o ↔ t.lineStart l ≤ o := by
  cases l with
  | zero => simp [lineStart_zero]
  | succ l =>
    have hlt : l < (t.startsFrom 0).length := Nat.lt_of_succ_lt_succ hl
    have hstart : (t.startsFrom 0)[l] = t.lineStart (l + 1) := lineStarts_getElem hl
    rw [Nat.succ_le_iff, t.lt_lineOf_iff o hlt, hstart, Nat.min_eq_left ho]

/-- Beyond the last line there is only the last line again. -/
theorem lineStart_of_le (h : t.lineCount ≤ l) : t.lineStart l = t.lineStart (t.lineCount - 1) := by
  have hmin : min l (t.lineCount - 1) = t.lineCount - 1 := Nat.min_eq_right (by omega)
  rw [lineStart, lineStart, hmin, Nat.min_self]

theorem lineOf_eq_iff (ho : o ≤ t.length) (l : Nat) :
    t.lineOf o = l ↔ t.lineStart l ≤ o ∧ (l + 1 = t.lineCount ∨ o < t.lineStart (l + 1)) := by
  have hlt := t.lineOf_lt o
  by_cases hl : l < t.lineCount
  · have hbegun := le_lineOf_iff ho hl
    by_cases hlast : l + 1 = t.lineCount
    · rw [← hbegun]
      omega
    · have hnext := le_lineOf_iff ho (l := l + 1) (by omega)
      rw [← hbegun]
      omega
  · have hstart := lineStart_of_le (Nat.le_of_not_lt hl)
    have hnext := lineStart_of_le (t := t) (l := l + 1) (by omega)
    omega

/-! One line -/

theorem lineStop_of_last (h : l + 1 = t.lineCount) : t.lineStop l = t.length := by
  rw [lineStop, if_neg (by omega)]

theorem lineStop_of_lt (h : l + 1 < t.lineCount) : t.lineStop l = t.lineStart (l + 1) := by
  rw [lineStop, if_pos h]

/-- The next line start is the first one behind the start of the line. -/
theorem lineStop_le (hl : l < t.lineCount) (hs : t.IsLineStart s) (h : t.lineStart l < s) :
    l + 1 < t.lineCount ∧ t.lineStop l ≤ s := by
  obtain ⟨l', hl', rfl⟩ := hs
  have hlater : l < l' := Nat.lt_of_not_le fun hle => by
    have := lineStart_le hle hl
    omega
  have hlast : l + 1 < t.lineCount := by omega
  rw [lineStop_of_lt hlast]
  exact ⟨hlast, lineStart_le hlater hl'⟩

/-- On the last line no break is left. -/
theorem lineEnd_of_last (h : l + 1 = t.lineCount) : t.lineEnd l = t.length := by
  have hl : l < t.lineCount := by omega
  have hline : min l (t.lineCount - 1) = l := by omega
  simp only [lineEnd, hline, lineStop_of_last h]
  rw [if_neg]
  rintro ⟨hlt, hbreak⟩
  obtain ⟨c, hc, hc'⟩ := (Option.any_eq_true _ _).1 hbreak
  have hsucc : t.length - 1 + 1 = t.length := by omega
  rcases exists_start_of_break hc hc' with hends | ⟨-, hfeed, -⟩
  · have hstart := isLineStart_succ hends
    have := (lineStop_le hl hstart (by omega)).1
    omega
  · rw [hsucc, List.getElem?_eq_none (Nat.le_refl _)] at hfeed
    cases hfeed

/-- On any other line the end is the place of the last break, or one before it if a return on the
same line belongs to it. -/
theorem lineEnd_of_lt (h : l + 1 < t.lineCount) :
    ∃ i, t.BreaksAt i ∧ t.lineStart (l + 1) = i + 1 ∧ t.lineStart l ≤ i ∧
      t.lineEnd l = if t.lineStart l < i ∧ t[i]? = some '\n' ∧ t[i - 1]? = some '\r' then i - 1
        else i := by
  have hline : min l (t.lineCount - 1) = l := by omega
  have hlater : t.lineStart l < t.lineStart (l + 1) := lineStart_lt (Nat.lt_succ_self l) h
  have hstart : t.IsLineStart (t.lineStart (l + 1)) := ⟨l + 1, h, rfl⟩
  rcases isLineStart_iff.1 hstart with hzero | ⟨i, hi, hsucc⟩
  · omega
  · obtain ⟨c, hc, hc', -⟩ := id hi
    have hbegun : t.lineStart l ≤ i := by omega
    refine ⟨i, hi, hsucc, hbegun, ?_⟩
    have hbreak : t[i]?.any isLineBreak = true := by
      rw [hc, Option.any_some, hc']
    have htwo : i + 1 - 2 = i - 1 := rfl
    simp only [lineEnd, hline, lineStop_of_lt h, hsucc, Nat.add_sub_cancel, htwo]
    rw [if_pos ⟨Nat.lt_succ_of_le hbegun, hbreak⟩]

theorem lineStart_le_lineEnd (hl : l < t.lineCount) : t.lineStart l ≤ t.lineEnd l := by
  rcases Nat.lt_or_eq_of_le (Nat.succ_le_of_lt hl) with hnext | hlast
  · obtain ⟨i, -, -, hbegun, hend⟩ := lineEnd_of_lt hnext
    rw [hend]
    split_ifs <;> omega
  · rw [lineEnd_of_last hlast]
    exact lineStart_le_length hl

/-- A break within a line would end it there. -/
theorem not_isLineBreak {c : Char} (hl : l < t.lineCount) (hi : t.lineStart l ≤ i)
    (hend : i < t.lineEnd l) (hc : t[i]? = some c) : isLineBreak c = false := by
  apply Bool.eq_false_iff.2
  intro hbreak
  have hbehind : ∀ j, i ≤ j → t.BreaksAt j → l + 1 < t.lineCount ∧ t.lineStop l ≤ j + 1 := by
    intro j hj hends
    exact lineStop_le hl (isLineStart_succ hends) (by omega)
  have hnext : l + 1 < t.lineCount := by
    rcases exists_start_of_break hc hbreak with hends | ⟨-, -, hends⟩
    · exact (hbehind i (Nat.le_refl i) hends).1
    · exact (hbehind (i + 1) (Nat.le_succ i) hends).1
  obtain ⟨k, -, hsucc, -, hlineEnd⟩ := lineEnd_of_lt hnext
  rw [lineStop_of_lt hnext, hsucc] at hbehind
  rcases exists_start_of_break hc hbreak with hends | ⟨rfl, hfeed, hends⟩
  · have := (hbehind i (Nat.le_refl i) hends).2
    rw [hlineEnd] at hend
    split_ifs at hend <;> omega
  · have hlast := (hbehind (i + 1) (Nat.le_succ i) hends).2
    rw [hlineEnd] at hend
    split_ifs at hend with hpair
    · omega
    · obtain rfl : k = i + 1 := by omega
      exact hpair ⟨Nat.lt_succ_of_le hi, hfeed, hc⟩

theorem slice_self (t : Text) (o : Nat) : t.slice o o = [] := by
  simp [slice]

theorem slice_cons {c : Char} (h : o < s) (hc : t[o]? = some c) :
    t.slice o s = c :: t.slice (o + 1) s := by
  have hget : (t.take s)[o]? = some c := by rw [List.getElem?_take_of_lt h, hc]
  obtain ⟨ho, rfl⟩ := List.getElem?_eq_some_iff.1 hget
  exact List.drop_eq_getElem_cons ho

theorem isTerminator_slice (h : l + 1 < t.lineCount) :
    IsTerminator (t.slice (t.lineEnd l) (t.lineStart (l + 1))) := by
  obtain ⟨i, ⟨c, hc, hbreak, -⟩, hsucc, hbegun, hend⟩ := lineEnd_of_lt h
  rw [hend, hsucc]
  split_ifs with hpair
  · obtain ⟨hlt, hfeed, hreturn⟩ := hpair
    have hpred : i - 1 + 1 = i := by omega
    rw [slice_cons (by omega) hreturn, hpred, slice_cons (by omega) hfeed, slice_self]
    exact .inl rfl
  · rw [slice_cons (Nat.lt_succ_self i) hc, slice_self]
    exact .inr ⟨c, hbreak, rfl⟩

theorem mem_slice_iff {c : Char} : c ∈ t.slice o s ↔ ∃ i, o ≤ i ∧ i < s ∧ t[i]? = some c := by
  rw [slice, List.mem_iff_getElem?]
  simp only [List.getElem?_drop]
  constructor
  · rintro ⟨k, hk⟩
    have hlt : o + k < s := by
      have := (List.getElem?_eq_some_iff.1 hk).1
      rw [List.length_take] at this
      omega
    rw [List.getElem?_take_of_lt hlt] at hk
    exact ⟨o + k, Nat.le_add_right o k, hlt, hk⟩
  · rintro ⟨i, hle, hlt, hi⟩
    refine ⟨i - o, ?_⟩
    rw [Nat.add_sub_cancel' hle, List.getElem?_take_of_lt hlt, hi]

/-! Starts and ends -/

theorem startsLine_iff (t : Text) (o : Nat) : t.startsLine o = true ↔ o = t.lineStartOf o := by
  rw [startsLine, Bool.or_eq_true, beq_iff_eq, beq_iff_eq]
  have hle := t.lineStartOf_le o
  omega

theorem startsLine_iff_isLineStart (ho : o ≤ t.length) :
    t.startsLine o = true ↔ t.IsLineStart o := by
  rw [startsLine_iff]
  constructor
  · intro h
    exact ⟨t.lineOf o, t.lineOf_lt o, h.symm⟩
  · rintro ⟨l, hl, rfl⟩
    have hline : t.lineOf (t.lineStart l) = l := by
      rw [lineOf_eq_iff ho]
      refine ⟨Nat.le_refl _, ?_⟩
      rcases Nat.lt_or_eq_of_le (Nat.succ_le_of_lt hl) with hnext | hlast
      · exact .inr (lineStart_lt (Nat.lt_succ_self l) hnext)
      · exact .inl hlast
    rw [lineStartOf, hline]

theorem endsLine_iff_break (t : Text) (o : Nat) :
    t.endsLine o = true ↔ t.length ≤ o ∨ ∃ c, t[o]? = some c ∧ isLineBreak c = true ∧
      ¬(c = '\n' ∧ 0 < o ∧ t[o - 1]? = some '\r') := by
  unfold endsLine
  split
  · rename_i h
    exact iff_of_true rfl (.inl (List.getElem?_eq_none_iff.1 h))
  · rename_i h
    have hlt := (List.getElem?_eq_some_iff.1 h).1
    have hfeed : isLineBreak '\n' = true := rfl
    simp [h, hfeed, Nat.not_le_of_lt hlt, Nat.pos_iff_ne_zero, or_iff_not_imp_left]
  · rename_i c hc h
    have hlt := (List.getElem?_eq_some_iff.1 h).1
    have hother : c ≠ '\n' := fun heq => hc (heq ▸ rfl)
    simp [h, hother, Nat.not_le_of_lt hlt]

/-- No line begins between a return and its feed. -/
theorem not_isLineStart (ho : 0 < o) (hreturn : t[o - 1]? = some '\r') (hfeed : t[o]? = some '\n') :
    ¬t.IsLineStart o := by
  intro h
  rcases isLineStart_iff.1 h with rfl | ⟨i, ⟨c, hc, -, hpair⟩, rfl⟩
  · exact Nat.lt_irrefl 0 ho
  · rw [Nat.add_sub_cancel, hc] at hreturn
    exact hpair ⟨Option.some.inj hreturn, hfeed⟩

/-- A break that no return in front belongs to, or the return itself, is where the line ends. -/
theorem lineEndOf_eq_of_break {c : Char} (hc : t[o]? = some c) (hbreak : isLineBreak c = true)
    (hpair : ¬(c = '\n' ∧ 0 < o ∧ t[o - 1]? = some '\r')) : t.lineEndOf o = o := by
  have ho : o ≤ t.length := Nat.le_of_lt (List.getElem?_eq_some_iff.1 hc).1
  have hl := t.lineOf_lt o
  obtain ⟨hbegun, hopen⟩ := (lineOf_eq_iff ho (t.lineOf o)).1 rfl
  have hbehind : ∀ j, o ≤ j → t.BreaksAt j →
      t.lineOf o + 1 < t.lineCount ∧ t.lineStop (t.lineOf o) ≤ j + 1 := by
    intro j hj hends
    exact lineStop_le hl (isLineStart_succ hends) (by omega)
  have hnext : t.lineOf o + 1 < t.lineCount := by
    rcases exists_start_of_break hc hbreak with hends | ⟨-, -, hends⟩
    · exact (hbehind o (Nat.le_refl o) hends).1
    · exact (hbehind (o + 1) (Nat.le_succ o) hends).1
  obtain ⟨i, hi, hsucc, hfrom, hend⟩ := lineEnd_of_lt hnext
  rw [lineStop_of_lt hnext, hsucc] at hbehind
  have hle : o ≤ i := by omega
  rw [lineEndOf, hend]
  rcases exists_start_of_break hc hbreak with hends | ⟨rfl, hfeed, hends⟩
  · have hlast := (hbehind o (Nat.le_refl o) hends).2
    obtain rfl : i = o := by omega
    rw [if_neg]
    rintro ⟨hlt, hfeed, hreturn⟩
    exact hpair ⟨Option.some.inj (hc.symm.trans hfeed), Nat.zero_lt_of_lt hlt, hreturn⟩
  · have hlast := (hbehind (o + 1) (Nat.le_succ o) hends).2
    have hne : i ≠ o := by
      rintro rfl
      obtain ⟨d, hd, -, hcut⟩ := hi
      exact hcut ⟨Option.some.inj (hd.symm.trans hc), hfeed⟩
    obtain rfl : i = o + 1 := by omega
    rw [if_pos ⟨Nat.lt_succ_of_le hbegun, hfeed, hc⟩, Nat.add_sub_cancel]

theorem endsLine_iff (ho : o ≤ t.length) : t.endsLine o = true ↔ o = t.lineEndOf o := by
  have hl := t.lineOf_lt o
  rw [endsLine_iff_break]
  constructor
  · rintro (hend | ⟨c, hc, hbreak, hpair⟩)
    · obtain rfl : o = t.length := Nat.le_antisymm ho hend
      have hopen := ((lineOf_eq_iff ho (t.lineOf t.length)).1 rfl).2
      have hlast : t.lineOf t.length + 1 = t.lineCount := by
        rcases hopen with hlast | hlt
        · exact hlast
        · by_contra hnot
          have := lineStart_le_length (t := t) (l := t.lineOf t.length + 1) (by omega)
          omega
      exact (lineEnd_of_last hlast).symm
    · exact (lineEndOf_eq_of_break hc hbreak hpair).symm
  · intro heq
    rw [lineEndOf] at heq
    rcases Nat.lt_or_eq_of_le (Nat.succ_le_of_lt hl) with hnext | hlast
    · obtain ⟨i, ⟨c, hc, hbreak, -⟩, -, hbegun, hend⟩ := lineEnd_of_lt hnext
      rw [hend] at heq
      right
      split_ifs at heq with hpair
      · rw [← heq] at hpair
        exact ⟨'\r', hpair.2.2, rfl, by simp⟩
      · subst heq
        refine ⟨c, hc, hbreak, ?_⟩
        rintro ⟨rfl, hpos, hreturn⟩
        -- The line would have to begin between the return and its feed.
        have hfirst : t.lineStart (t.lineOf o) = o := by
          by_contra hne
          exact hpair ⟨by omega, hc, hreturn⟩
        exact not_isLineStart hpos hreturn hc ⟨t.lineOf o, hl, hfirst⟩
    · rw [lineEnd_of_last hlast] at heq
      exact .inl heq.ge

/-! The lines that follow -/

theorem isFirstStart_nextLineStart (ho : o ≤ t.length) :
    t.IsFirstStart (o < ·) (t.nextLineStart o) := by
  have hl := t.lineOf_lt o
  obtain ⟨hbegun, hopen⟩ := (lineOf_eq_iff ho (t.lineOf o)).1 rfl
  have hfirst : ∀ s, t.IsLineStart s → o < s →
      t.lineOf o + 1 < t.lineCount ∧ t.lineStop (t.lineOf o) ≤ s := by
    intro s hs hlt
    exact lineStop_le hl hs (Nat.lt_of_le_of_lt hbegun hlt)
  rw [nextLineStart]
  rcases Nat.lt_or_eq_of_le (Nat.succ_le_of_lt hl) with hnext | hlast
  · have hstop := lineStop_of_lt hnext
    have hlt : o < t.lineStop (t.lineOf o) := by omega
    left
    refine ⟨⟨⟨t.lineOf o + 1, hnext, hstop.symm⟩, hlt⟩, ?_⟩
    rintro s ⟨hs, hs'⟩
    exact (hfirst s hs hs').2
  · right
    refine ⟨?_, lineStop_of_last hlast⟩
    intro s hs hs'
    have := (hfirst s hs hs').1
    omega

theorem isFirstStart_lineBoundary (ho : o ≤ t.length) :
    t.IsFirstStart (o ≤ ·) (t.lineBoundary o) := by
  rw [lineBoundary]
  split_ifs with hstart
  · rw [startsLine_iff_isLineStart ho] at hstart
    exact .inl ⟨⟨hstart, Nat.le_refl o⟩, fun s hs => hs.2⟩
  · rw [startsLine_iff_isLineStart ho] at hstart
    -- No line begins at the offset itself.
    have hlater : ∀ s, t.IsLineStart s → (o ≤ s ↔ o < s) := by
      intro s hs
      have hne : o ≠ s := fun h => hstart (h ▸ hs)
      omega
    rcases isFirstStart_nextLineStart ho with ⟨⟨hs, hlt⟩, hleast⟩ | ⟨hnone, hend⟩
    · exact .inl ⟨⟨hs, Nat.le_of_lt hlt⟩, fun s' h => hleast ⟨h.1, (hlater s' h.1).1 h.2⟩⟩
    · exact .inr ⟨fun s hs hle => hnone s hs ((hlater s hs).1 hle), hend⟩

/-! All lines -/

/-- A line with what ends it. -/
def line (t : Text) (l : Nat) : Text := t.slice (t.lineStart l) (t.lineStop l)

theorem take_append_slice (h : o ≤ s) : t.take o ++ t.slice o s = t.take s := by
  have htake : (t.take s).take o = t.take o := by rw [List.take_take, Nat.min_eq_left h]
  rw [slice, ← htake, List.take_append_drop]

theorem flatMap_line (hl : l < t.lineCount) :
    (List.range l).flatMap t.line = t.take (t.lineStart l) := by
  induction l with
  | zero => simp [lineStart_zero]
  | succ l ih =>
    have hstep : t.line l = t.slice (t.lineStart l) (t.lineStart (l + 1)) := by
      rw [line, lineStop_of_lt hl]
    rw [List.range_succ, List.flatMap_append, ih (Nat.lt_of_succ_lt hl), List.flatMap_singleton,
      hstep, take_append_slice (Nat.le_of_lt (lineStart_lt (Nat.lt_succ_self l) hl))]

theorem flatMap_line_lineCount (t : Text) : (List.range t.lineCount).flatMap t.line = t := by
  have hl : (t.startsFrom 0).length < t.lineCount := Nat.lt_succ_self _
  have hlast : t.line (t.startsFrom 0).length =
      t.slice (t.lineStart (t.startsFrom 0).length) t.length := by
    rw [line, lineStop_of_last t.lineCount_eq.symm]
  rw [lineCount_eq, List.range_succ, List.flatMap_append, flatMap_line hl, List.flatMap_singleton,
    hlast, take_append_slice (lineStart_le_length hl), List.take_length]

end

/-- The lines of a text, told by its characters. -/
structure Partitioned (t : Text) : Prop where
  /-- Lines begin at the start of the text and behind what ends a line. -/
  isLineStart_iff : ∀ s, t.IsLineStart s ↔ s = 0 ∨ ∃ i, t.BreaksAt i ∧ s = i + 1
  lineStart_zero : t.lineStart 0 = 0
  lineStart_lt : ∀ l l', l < l' → l' < t.lineCount → t.lineStart l < t.lineStart l'
  /-- An offset is on the last line that has begun. -/
  lineOf_eq_iff : ∀ o ≤ t.length, ∀ l, t.lineOf o = l ↔
    t.lineStart l ≤ o ∧ (l + 1 = t.lineCount ∨ o < t.lineStart (l + 1))
  lineStart_le_lineEnd : ∀ l < t.lineCount, t.lineStart l ≤ t.lineEnd l
  /-- A line holds no break. -/
  unbroken : ∀ l < t.lineCount, ∀ c ∈ t.slice (t.lineStart l) (t.lineEnd l), isLineBreak c = false
  /-- Between two lines stands one terminator. -/
  terminated : ∀ l, l + 1 < t.lineCount →
    IsTerminator (t.slice (t.lineEnd l) (t.lineStart (l + 1)))
  /-- Nothing ends the last line but the text itself. -/
  lineEnd_last : ∀ l, l + 1 = t.lineCount → t.lineEnd l = t.length
  startsLine_iff : ∀ o ≤ t.length, t.startsLine o = true ↔ o = t.lineStartOf o
  endsLine_iff : ∀ o ≤ t.length, t.endsLine o = true ↔ o = t.lineEndOf o
  nextLineStart : ∀ o ≤ t.length, t.IsFirstStart (o < ·) (t.nextLineStart o)
  lineBoundary : ∀ o ≤ t.length, t.IsFirstStart (o ≤ ·) (t.lineBoundary o)
  /-- The lines with their terminators are the whole text. -/
  flatMap_line : (List.range t.lineCount).flatMap t.line = t

/-- Whatever breaks a text has, also cut in the middle of a pair, the queries about its lines agree
with one another and with its characters. -/
theorem partitioned (t : Text) : t.Partitioned where
  isLineStart_iff _ := isLineStart_iff
  lineStart_zero := t.lineStart_zero
  lineStart_lt _ _ := lineStart_lt
  lineOf_eq_iff _ := lineOf_eq_iff
  lineStart_le_lineEnd _ := lineStart_le_lineEnd
  unbroken l hl c hc := by
    obtain ⟨i, hstart, hend, hi⟩ := mem_slice_iff.1 hc
    exact not_isLineBreak hl hstart hend hi
  terminated _ := isTerminator_slice
  lineEnd_last _ := lineEnd_of_last
  startsLine_iff o _ := t.startsLine_iff o
  endsLine_iff _ := endsLine_iff
  nextLineStart _ := isFirstStart_nextLineStart
  lineBoundary _ := isFirstStart_lineBoundary
  flatMap_line := t.flatMap_line_lineCount

/-- A return in front of a pair is a line end of its own, and the text ends with an empty line. -/
example :
    let t : Text := ['a', '\r', '\r', '\n', '\u2028']
    t.lineStarts = [0, 2, 4, 5] ∧ (List.range 4).map t.lineEnd = [1, 2, 4, 5] ∧
      (List.range 6).map t.lineOf = [0, 0, 1, 1, 2, 3] ∧
        (List.range 6).map t.lineBoundary = [0, 2, 2, 4, 4, 5] := by
  decide

end Text
end CodeBuffer
