import CodeBuffer.Bracket

namespace CodeBuffer
namespace BracketMatcher

variable {limit bracket : Nat} {own partner : Char} {start : BracketContext}
  {context context' : Nat → BracketContext} {m : BracketMatcher} {d d' : Document} {t : Text}

/-- How many places a search visits at most. -/
def visits (m : BracketMatcher) : Nat := max 1 m.maxChars

/-- What a search for the partner of a bracket at the cursor, or of one on its left, may look at. -/
def Examines (m : BracketMatcher) (cursor p : Nat) : Prop :=
  cursor ≤ p + 1 + m.visits ∧ p ≤ cursor + m.visits

/-- A walk sees only as many places of its path as it has steps left, but always one. -/
theorem walk_congr {path : List (Nat × Option Char)} (depth steps : Nat)
    (h : ∀ e ∈ path.take (max 1 (limit - steps)), context e.1 = context' e.1) :
    walk bracket own partner start limit context path depth steps =
      walk bracket own partner start limit context' path depth steps := by
  induction path generalizing depth steps with
  | nil => rfl
  | cons e rest ih =>
    obtain ⟨o, c⟩ := e
    obtain ⟨k, hk⟩ : ∃ k, max 1 (limit - steps) = k + 1 := Nat.exists_eq_add_one.2 (by omega)
    rw [hk, List.take_succ_cons] at h
    have hhere : context o = context' o := h (o, c) List.mem_cons_self
    have hrest (depth : Nat) (hlimit : ¬limit ≤ steps + 1) :
        walk bracket own partner start limit context rest depth (steps + 1) =
          walk bracket own partner start limit context' rest depth (steps + 1) := by
      apply ih
      intro e he
      have hlast : max 1 (limit - (steps + 1)) = k := by omega
      rw [hlast] at he
      exact h e (List.mem_cons_of_mem _ he)
    simp only [walk, hhere]
    split
    · rfl
    · split
      · rfl
      · split
        · rfl
        · rename_i hlimit
          exact hrest _ hlimit

/-- The first places of a path are the nearest. -/
theorem mem_take_path {o k : Nat} (ho : o ≤ t.length) {forward : Bool} {e : Nat × Option Char}
    (he : e ∈ (path t o forward).take k) : o ≤ e.1 + k ∧ e.1 ≤ o + k := by
  cases forward with
  | true =>
    simp only [path, if_true] at he
    obtain ⟨i, hi, rfl⟩ := List.mem_iff_getElem.1 he
    rw [List.length_take] at hi
    simp only [List.getElem_take, List.getElem_zip, List.getElem_range']
    omega
  | false =>
    simp only [path, Bool.false_eq_true, if_false] at he
    obtain ⟨i, hi, rfl⟩ := List.mem_iff_getElem.1 he
    simp only [List.length_take, List.length_reverse, List.length_zip, List.length_range,
      List.length_map] at hi
    simp only [List.getElem_take, List.getElem_reverse, List.getElem_zip, List.getElem_range,
      List.length_zip, List.length_range, List.length_map, List.length_take]
    omega

theorem findAt_congr {o : Nat} (htext : d'.text = d.text)
    (h : ∀ p, o ≤ p + m.visits → p ≤ o + m.visits → d.bracketContext p = d'.bracketContext p) :
    m.findAt d o = m.findAt d' o := by
  have hchar : d'.charAt? o = d.charAt? o := by rw [Document.charAt?, htext, Document.charAt?]
  rw [findAt, findAt, hchar]
  cases hc : d.charAt? o with
  | none => rfl
  | some c =>
    have ho : o ≤ d.text.length := by
      rw [Document.charAt?] at hc
      exact Nat.le_of_lt (List.getElem?_eq_some_iff.1 hc).1
    cases hpair : bracketPair? c with
    | none => simp [hpair]
    | some pair =>
      obtain ⟨partner, forward⟩ := pair
      simp only [hpair, htext]
      rw [h o (Nat.le_add_right o _) (Nat.le_add_right o _)]
      apply walk_congr
      intro e he
      have hnear := mem_take_path ho he
      exact h e.1 hnear.1 hnear.2

/-- A search depends on the text and on the contexts of what it may look at, and on no others. -/
theorem findMatch_congr {cursor : Nat} (htext : d'.text = d.text)
    (h : ∀ p, m.Examines cursor p → d.bracketContext p = d'.bracketContext p) :
    m.findMatch d cursor = m.findMatch d' cursor := by
  have hright : m.findAt d cursor = m.findAt d' cursor := by
    apply findAt_congr htext
    intro p hlo hhi
    exact h p ⟨by omega, hhi⟩
  have hleft (hpos : 0 < cursor) : m.findAt d (cursor - 1) = m.findAt d' (cursor - 1) := by
    apply findAt_congr htext
    intro p hlo hhi
    exact h p ⟨by omega, by omega⟩
  rw [findMatch, findMatch, hright, htext]
  by_cases hpos : 0 < cursor
  · rw [hleft hpos]
  · simp [hpos]

end BracketMatcher
end CodeBuffer
