import CodeBuffer.Proofs.Plain.Editing

namespace CodeBuffer

open Delimiter DelimiterTable

namespace Delimiter

/-- The place of a delimiter among others. At one offset a closer comes before an opener, and an
opener belongs to the text behind it. -/
def rank (d : Delimiter) : Nat := if d.opens then 2 * d.offset + 1 else 2 * d.offset

theorem rank_of_opens {d : Delimiter} (hd : d.opens = true) : d.rank = 2 * d.offset + 1 := if_pos hd

theorem rank_of_closes {d : Delimiter} (hd : d.opens = false) : d.rank = 2 * d.offset := by
  rw [rank, hd]
  rfl

theorem withinLines_iff_rank {m : Nat} {d : Delimiter} :
    withinLines m d = true ↔ d.rank ≤ 2 * m := by
  rw [withinLines_iff, rank]
  split <;> omega

/-- An opener lies strictly before its closer, which may stand right before the next opener. -/
def Precedes (d e : Delimiter) : Prop :=
  e.opens = !d.opens ∧ if d.opens then d.offset < e.offset else d.offset ≤ e.offset

theorem precedes_iff {d e : Delimiter} : d.Precedes e ↔ e.opens = !d.opens ∧ d.rank < e.rank := by
  refine and_congr_right fun he => ?_
  rw [rank, rank, he]
  cases d.opens <;> simp only [Bool.not_false, Bool.not_true, Bool.false_eq_true, if_true, if_false]
  · omega
  · omega

/-- Openers and closers by turns, in order. They begin in a state and behind a rank. -/
def Alternate : Nat → Option PatternKey → List Delimiter → Prop
  | _, _, [] => True
  | low, state, d :: ds => low < d.rank ∧ d.opens = state.isNone ∧ Alternate d.rank d.key ds

namespace Alternate

variable {low low' m : Nat} {state state' : Option PatternKey} {ds es : List Delimiter}

theorem mono (h : Alternate low state ds) (hle : low' ≤ low) : Alternate low' state ds := by
  cases ds with
  | nil => trivial
  | cons d ds => exact ⟨by have := h.1; omega, h.2⟩

theorem lt_rank (h : Alternate low state ds) : ∀ d ∈ ds, low < d.rank := by
  induction ds generalizing low state with
  | nil => simp
  | cons d ds ih =>
    intro e he
    rcases List.mem_cons.1 he with rfl | he
    · exact h.1
    · have := ih h.2.2 e he
      have := h.1
      omega

theorem head (h : Alternate low state ds) : ∀ d ∈ ds.head?, d.opens = state.isNone := by
  cases ds with
  | nil => simp
  | cons d ds => simpa using h.2.1

/-- Each of them precedes the next one. -/
theorem isChain (h : Alternate low state ds) : ds.IsChain Precedes := by
  induction ds generalizing low state with
  | nil => exact .nil
  | cons d ds ih =>
    have hds := ih h.2.2
    cases ds with
    | nil => exact .singleton d
    | cons e ds =>
      have hturn : e.opens = !d.opens := by
        rw [h.2.2.2.1, opens, Option.not_isSome]
      exact .cons_cons (precedes_iff.2 ⟨hturn, h.2.2.1⟩) hds

theorem append (h : Alternate low state ds) (hle : low ≤ m) (hds : ∀ d ∈ ds, d.rank ≤ m)
    (h' : Alternate m (stateFrom state ds) es) : Alternate low state (ds ++ es) := by
  induction ds generalizing low state with
  | nil => exact h'.mono hle
  | cons d ds ih =>
    refine ⟨h.1, h.2.1, ih h.2.2 (hds d List.mem_cons_self) ?_ h'⟩
    exact fun e he => hds e (List.mem_cons_of_mem d he)

theorem init (h : Alternate low state (ds ++ es)) : Alternate low state ds := by
  induction ds generalizing low state with
  | nil => trivial
  | cons d ds ih => exact ⟨h.1, h.2.1, ih h.2.2⟩

theorem tail (h : Alternate low state (ds ++ es)) : Alternate low (stateFrom state ds) es := by
  induction ds generalizing low state with
  | nil => exact h
  | cons d ds ih => exact (ih h.2.2).mono (Nat.le_of_lt h.1)

theorem suffix (h : Alternate low state ds) (hes : es <:+ ds) :
    ∃ state', Alternate low state' es := by
  obtain ⟨before, rfl⟩ := hes
  exact ⟨_, h.tail⟩

/-- A delimiter that two lists share is where one can go on as the other does. -/
theorem splice {d : Delimiter} {cs rest : List Delimiter} (h : Alternate low state (ds ++ d :: es))
    (h' : Alternate low' state' (cs ++ d :: rest)) : Alternate low state (ds ++ d :: rest) := by
  induction ds generalizing low state with
  | nil => exact ⟨h.1, h.2.1, h'.tail.2.2⟩
  | cons e ds ih => exact ⟨h.1, h.2.1, ih h.2.2⟩

/-- All lie before the last one. -/
theorem rank_lt_last {d : Delimiter} (h : Alternate low state (ds ++ [d])) :
    ∀ e ∈ ds, e.rank < d.rank := by
  induction ds generalizing low state with
  | nil => simp
  | cons c ds ih =>
    intro e he
    rcases List.mem_cons.1 he with rfl | he
    · exact h.2.2.lt_rank d (List.mem_append_right _ List.mem_cons_self)
    · exact ih h.2.2 e he

/-- What is left once a rank is passed lies behind it. -/
theorem dropWithin (h : Alternate low state ds) (m : Nat) :
    Alternate (2 * m) (stateFrom state (ds.takeWhile (withinLines m)))
      (ds.dropWhile (withinLines m)) := by
  induction ds generalizing low state with
  | nil => trivial
  | cons d ds ih =>
    by_cases hd : withinLines m d = true
    · rw [List.takeWhile_cons_of_pos hd, List.dropWhile_cons_of_pos hd]
      exact ih h.2.2
    · rw [List.takeWhile_cons_of_neg hd, List.dropWhile_cons_of_neg hd]
      rw [withinLines_iff_rank] at hd
      exact ⟨by omega, h.2⟩

theorem takeWhile (h : Alternate low state ds) (p : Delimiter → Bool) :
    Alternate low state (ds.takeWhile p) := by
  rw [← List.takeWhile_append_dropWhile (p := p) (l := ds)] at h
  exact h.init

end Alternate
end Delimiter

namespace Edit

variable {e : Edit} {d d' c c' : Delimiter}

/-- Where an edit takes a delimiter. -/
theorem rank_map? (h : e.map? d = some d') :
    match e with
    | insertion o n => d'.rank = if 2 * o < d.rank then d.rank + 2 * n else d.rank
    | deletion o n =>
      2 * (o + n) < d.rank ∧ d'.rank = d.rank - 2 * n ∨ d.rank ≤ 2 * o ∧ d'.rank = d.rank := by
  have opens : d'.opens = d.opens := by rw [Delimiter.opens, key_map? h, Delimiter.opens]
  by_cases hd : d.opens = true
  · have hoff := offset_of_opens hd h
    have hrank := rank_of_opens hd
    have hrank' := rank_of_opens (opens.trans hd)
    cases e <;> simp only at hoff ⊢
    · split <;> omega
    · omega
  · rw [Bool.not_eq_true] at hd
    have hoff := offset_of_closes hd h
    have hrank := rank_of_closes hd
    have hrank' := rank_of_closes (opens.trans hd)
    cases e with
    | insertion o n =>
      simp only at hoff ⊢
      split <;> omega
    | deletion o n =>
      -- a closer at the very end of the deleted text is gone
      simp only [map?, hd, Bool.false_eq_true, if_false, Bool.and_eq_true, decide_eq_true_eq,
        Option.ite_none_left_eq_some] at h
      simp only at hoff ⊢
      omega

theorem rank_lt_map? (h : e.map? d = some d') (hc : e.map? c = some c') (hlt : d.rank < c.rank) :
    d'.rank < c'.rank := by
  have hd' := rank_map? h
  have hc' := rank_map? hc
  cases e <;> simp only at hd' hc'
  · split at hd' <;> split at hc' <;> omega
  · omega

/-- What lies before a plain offset lies before it after the edit. -/
theorem rank_le_mapOffset {o : Nat} (h : e.map? d = some d') (hd : d.rank ≤ 2 * o) :
    d'.rank ≤ 2 * e.mapOffset o := by
  have hd' := rank_map? h
  cases e <;> simp only [mapOffset] at hd' ⊢
  · split at hd' <;> split <;> omega
  · split <;> omega

/-- What lies in the text lies in the text after the edit. -/
theorem rank_le_length {t t' : Text} (he : e.Turns t t') (h : e.map? d = some d')
    (hd : d.rank ≤ 2 * t.length) : d'.rank ≤ 2 * t'.length := by
  have hd' := rank_map? h
  have hback := he.back_length
  have hstop := he.stop_le
  cases e <;> simp only [back, stop] at hd' hback hstop
  · split at hd' <;> omega
  · omega

/-- What lies behind an offset that the edit does not pass stays behind it. -/
theorem lt_rank_map? {m : Nat} (h : e.map? d = some d') (hm : m ≤ e.offset) (hd : 2 * m < d.rank) :
    2 * m < d'.rank := by
  have hd' := rank_map? h
  cases e <;> simp only [offset] at hd' hm
  · split at hd' <;> omega
  · omega

/-- What lies behind the edited text moves along with its end. -/
theorem lt_rank_map?_behind {s f : Nat} (h : e.map? d = some d') (hs : e.stop ≤ s)
    (hf : e.back s ≤ f) (hd : 2 * f < d.rank) : 2 * (s + (f - e.back s)) < d'.rank := by
  have hd' := rank_map? h
  cases e <;> simp only [stop, back] at hd' hs hf ⊢
  · split at hd' <;> omega
  · omega

end Edit

namespace Delimiter.Alternate

variable {e : Edit} {low low' : Nat} {state : Option PatternKey} {ds : List Delimiter}

/-- Delimiters that an edit moves along stay in order, as long as none of them goes. -/
theorem filterMap (h : Alternate low state ds) (hall : ∀ d ∈ ds, (e.map? d).isSome = true)
    (hlow : ∀ d d', e.map? d = some d' → low < d.rank → low' < d'.rank) :
    Alternate low' state (ds.filterMap e.map?) := by
  induction ds generalizing low low' state with
  | nil => trivial
  | cons d ds ih =>
    obtain ⟨d', hd'⟩ := Option.isSome_iff_exists.1 (hall d List.mem_cons_self)
    have hkey := Edit.key_map? hd'
    rw [List.filterMap_cons_some hd']
    refine ⟨hlow d d' hd' h.1, ?_, ?_⟩
    · rw [opens, hkey, ← opens]
      exact h.2.1
    · rw [hkey]
      refine ih h.2.2 (fun c hc => hall c (List.mem_cons_of_mem d hc)) ?_
      exact fun c c' hc hlt => Edit.rank_lt_map? hd' hc hlt

end Delimiter.Alternate
end CodeBuffer
