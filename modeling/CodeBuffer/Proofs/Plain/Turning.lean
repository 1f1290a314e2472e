import CodeBuffer.Delimiter.Table
import CodeBuffer.Proofs.Plain.Explores

namespace CodeBuffer

namespace Edit

/-- The edit makes a text into another. -/
def Turns (t t' : Text) : Edit → Prop
  | insertion o n => o ≤ t.length ∧ ∃ s : Text, s.length = n ∧ t' = t.take o ++ s ++ t.drop o
  | deletion o n => o + n ≤ t.length ∧ t' = t.take o ++ t.drop (o + n)

/-- Where an offset behind the edit was before it. -/
def back : Edit → Nat → Nat
  | insertion _ n, s => s - n
  | deletion _ n, s => s + n

variable {e : Edit} {t t' : Text} {s : Nat}

theorem offset_le_stop (e : Edit) : e.offset ≤ e.stop := by
  cases e <;> simp [offset, stop]

theorem offset_le_back (h : e.stop ≤ s) : e.offset ≤ e.back s := by
  cases e <;> simp only [offset, stop, back] at h ⊢ <;> omega

namespace Turns

theorem offset_le (h : e.Turns t t') : e.offset ≤ t.length := by
  cases e with
  | insertion o n => exact h.1
  | deletion o n => exact (Nat.le_add_right o n).trans h.1

theorem take_eq (h : e.Turns t t') {m : Nat} (hm : m ≤ e.offset) : t'.take m = t.take m := by
  have hle := h.offset_le
  cases e with
  | insertion o n =>
    obtain ⟨-, s, -, rfl⟩ := h
    simp only [offset] at hm hle
    rw [List.append_assoc, List.take_append_of_le_length (by rw [List.length_take]; omega),
      List.take_take, Nat.min_eq_left hm]
  | deletion o n =>
    obtain ⟨-, rfl⟩ := h
    simp only [offset] at hm hle
    rw [List.take_append_of_le_length (by rw [List.length_take]; omega), List.take_take,
      Nat.min_eq_left hm]

theorem drop_eq (h : e.Turns t t') (hs : e.stop ≤ s) : t'.drop s = t.drop (e.back s) := by
  cases e with
  | insertion o n =>
    obtain ⟨hle, x, hx, rfl⟩ := h
    simp only [stop] at hs
    have hlen : (t.take o ++ x).length = o + n := by
      rw [List.length_append, List.length_take, Nat.min_eq_left hle, hx]
    rw [show s = (t.take o ++ x).length + (s - (o + n)) by omega, List.drop_length_add_append,
      List.drop_drop, hlen, back]
    congr 1
    omega
  | deletion o n =>
    obtain ⟨hle, rfl⟩ := h
    simp only [stop] at hs
    have hlen : (t.take o).length = o := by
      rw [List.length_take]
      omega
    rw [show s = (t.take o).length + (s - o) by omega, List.drop_length_add_append,
      List.drop_drop, hlen, back]
    congr 1
    omega

theorem stop_le (h : e.Turns t t') : e.stop ≤ t'.length := by
  cases e with
  | insertion o n =>
    obtain ⟨hle, x, hx, rfl⟩ := h
    simp only [stop, List.length_append, List.length_take, List.length_drop]
    omega
  | deletion o n =>
    obtain ⟨hle, rfl⟩ := h
    simp only [stop, List.length_append, List.length_take, List.length_drop]
    omega

theorem back_length (h : e.Turns t t') : e.back t'.length = t.length := by
  cases e with
  | insertion o n =>
    obtain ⟨hle, x, hx, rfl⟩ := h
    simp only [back, List.length_append, List.length_take, List.length_drop]
    omega
  | deletion o n =>
    obtain ⟨hle, rfl⟩ := h
    simp only [back, List.length_append, List.length_take, List.length_drop]
    omega

theorem back_le (h : e.Turns t t') (hs : s ≤ t'.length) : e.back s ≤ t.length := by
  rw [← h.back_length]
  cases e <;> simp only [back] <;> omega

/-- The line behind the edited text begins behind the same line break as before, if there is
one. -/
theorem isSeam_back (h : e.Turns t t') : t.IsSeam (e.back (t'.nextLineStart e.stop)) := by
  have hstop := h.stop_le
  by_cases hend : e.stop < t'.length
  · have hlt := t'.lt_nextLineStart _ hend
    have hle := t'.nextLineStart_le e.stop
    rcases t'.isSeam_nextLineStart e.stop with hlen | hclosed
    · rw [Nat.le_antisymm hle hlen, h.back_length]
      exact .inl (Nat.le_refl _)
    · -- the line break itself lies behind the edit
      obtain ⟨c, hc, hbreak⟩ := hclosed.lineBreak (by omega) hle
      have moved := congrArg List.head? (h.drop_eq (s := t'.nextLineStart e.stop - 1) (by omega))
      rw [List.head?_drop, List.head?_drop, hc] at moved
      refine .inr ?_
      have hback : e.back (t'.nextLineStart e.stop - 1) + 1 = e.back (t'.nextLineStart e.stop) := by
        cases e <;> simp only [Edit.back, Edit.stop] at hlt ⊢ <;> omega
      rw [← hback]
      exact Text.closed_take moved.symm hbreak
  · have hle := t'.nextLineStart_le e.stop
    have hge := t'.le_nextLineStart _ hstop
    rw [show t'.nextLineStart e.stop = t'.length by omega, h.back_length]
    exact .inl (Nat.le_refl _)

end Turns

section
variable {d d' : Delimiter}

/-- Only the offset of a delimiter changes. -/
theorem map?_eq_some (h : e.map? d = some d') : d' = { d with offset := d'.offset } := by
  cases e with
  | insertion o n =>
    rw [map?, Option.some.injEq] at h
    rw [← h, apply_ite Delimiter.offset]
    split <;> split <;> rfl
  | deletion o n =>
    rw [map?, Option.ite_none_left_eq_some, Option.some.injEq] at h
    rw [← h.2, apply_ite Delimiter.offset]
    split <;> rfl

theorem key_map? (h : e.map? d = some d') : d'.key = d.key := by
  rw [map?_eq_some h]

/-- Where an edit takes an opener. -/
theorem offset_of_opens (hd : d.opens = true) (h : e.map? d = some d') :
    match e with
    | insertion o n =>
      o ≤ d.offset ∧ d'.offset = d.offset + n ∨ d.offset < o ∧ d'.offset = d.offset
    | deletion o n =>
      o + n ≤ d.offset ∧ d'.offset = d.offset - n ∨ d.offset < o ∧ d'.offset = d.offset := by
  cases e with
  | insertion o n =>
    simp only [map?, hd, if_true, decide_eq_true_eq, Option.some.injEq] at h
    by_cases hmove : o ≤ d.offset
    · rw [if_pos hmove] at h
      exact .inl ⟨hmove, by rw [← h]⟩
    · rw [if_neg hmove] at h
      exact .inr ⟨by omega, by rw [← h]⟩
  | deletion o n =>
    simp only [map?, hd, if_true, Bool.and_eq_true, decide_eq_true_eq,
      Option.ite_none_left_eq_some, Option.some.injEq] at h
    obtain ⟨hkept, h⟩ := h
    by_cases hmove : o + n ≤ d.offset
    · rw [if_pos hmove] at h
      exact .inl ⟨hmove, by rw [← h]⟩
    · rw [if_neg hmove] at h
      exact .inr ⟨by omega, by rw [← h]⟩

/-- Where an edit takes a closer. -/
theorem offset_of_closes (hd : d.opens = false) (h : e.map? d = some d') :
    match e with
    | insertion o n =>
      o < d.offset ∧ d'.offset = d.offset + n ∨ d.offset ≤ o ∧ d'.offset = d.offset
    | deletion o n =>
      o + n ≤ d.offset ∧ d'.offset = d.offset - n ∨ d.offset ≤ o ∧ d'.offset = d.offset := by
  cases e with
  | insertion o n =>
    simp only [map?, hd, Bool.false_eq_true, if_false, decide_eq_true_eq, Option.some.injEq] at h
    by_cases hmove : o < d.offset
    · rw [if_pos hmove] at h
      exact .inl ⟨hmove, by rw [← h]⟩
    · rw [if_neg hmove] at h
      exact .inr ⟨by omega, by rw [← h]⟩
  | deletion o n =>
    simp only [map?, hd, Bool.false_eq_true, if_false, Bool.and_eq_true, decide_eq_true_eq,
      Option.ite_none_left_eq_some, Option.some.injEq] at h
    obtain ⟨hkept, h⟩ := h
    by_cases hmove : o + n ≤ d.offset
    · rw [if_pos hmove] at h
      exact .inl ⟨hmove, by rw [← h]⟩
    · rw [if_neg hmove] at h
      exact .inr ⟨by omega, by rw [← h]⟩

/-- A delimiter stays on its side of an offset behind the edit. -/
theorem withinLines_map? (hs : e.stop ≤ s) (h : e.map? d = some d') :
    DelimiterTable.withinLines s d' = DelimiterTable.withinLines (e.back s) d := by
  have opens : d'.opens = d.opens := by rw [Delimiter.opens, key_map? h, Delimiter.opens]
  rw [Bool.eq_iff_iff, DelimiterTable.withinLines_iff, DelimiterTable.withinLines_iff, opens]
  cases hd : d.opens with
  | true =>
    have hoff := offset_of_opens hd h
    cases e <;> simp only [stop, back, if_true] at hs hoff ⊢ <;> omega
  | false =>
    have hoff := offset_of_closes hd h
    cases e <;> simp only [stop, back, Bool.false_eq_true, if_false] at hs hoff ⊢ <;> omega

theorem isSome_map?_of_behind (hs : e.stop ≤ s)
    (hout : DelimiterTable.withinLines (e.back s) d = false) : ∃ d', e.map? d = some d' := by
  rw [← Bool.not_eq_true, DelimiterTable.withinLines_iff] at hout
  cases e with
  | insertion o n => exact ⟨_, rfl⟩
  | deletion o n =>
    refine ⟨_, if_neg ?_⟩
    simp only [stop, back] at hs hout
    cases hd : d.opens <;> simp only [hd, Bool.false_eq_true, if_false, if_true,
      Bool.and_eq_true, decide_eq_true_eq] at hout ⊢ <;> omega

/-- What lies behind the edited lines moves along with their end. -/
theorem map?_shift (hs : e.stop ≤ s) (hout : DelimiterTable.withinLines 0 d = false) :
    e.map? (d.shift (e.back s)) = some (d.shift s) := by
  have opens : (d.shift (e.back s)).opens = d.opens := rfl
  have hoff : (d.shift (e.back s)).offset = e.back s + d.offset := rfl
  have hbehind : DelimiterTable.withinLines (e.back s) (d.shift (e.back s)) = false := by
    rw [← Bool.not_eq_true, DelimiterTable.withinLines_iff] at hout ⊢
    rw [opens, hoff]
    split at hout <;> simp only [*, if_true, Bool.false_eq_true, if_false] <;> omega
  obtain ⟨d', h⟩ := isSome_map?_of_behind hs hbehind
  rw [← Bool.not_eq_true, DelimiterTable.withinLines_iff, opens] at hbehind
  have hoff' : d'.offset = s + d.offset := by
    cases hd : d.opens with
    | true =>
      have := offset_of_opens (opens.trans hd) h
      rw [hd, if_pos rfl] at hbehind
      cases e <;> simp only [stop, back] at hs hoff hbehind this <;> omega
    | false =>
      have := offset_of_closes (opens.trans hd) h
      rw [hd, if_neg Bool.false_ne_true] at hbehind
      cases e <;> simp only [stop, back] at hs hoff hbehind this <;> omega
  rw [h, map?_eq_some h, hoff']
  rfl

end
end Edit
end CodeBuffer
