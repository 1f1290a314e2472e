import CodeBuffer.Delimiter.Chunk

namespace CodeBuffer

namespace Place

/-- Where a walk ends, what lies behind the walker turned around. -/
theorem forward_eq {p : Place} {n : Nat} (h : n ≤ p.after.length) :
    p.forward n = ⟨p.offset + n, (p.after.take n).reverse ++ p.before, p.after.drop n⟩ := by
  fun_induction forward p n with
  | case1 => simp
  | case2 o before c after n ih =>
    rw [ih (by simpa using h)]
    simp [Nat.add_assoc, Nat.add_comm 1 n]
  | case3 => simp at h

theorem forward_forward (p : Place) (m n : Nat) :
    (p.forward m).forward n = p.forward (m + n) := by
  fun_induction forward p m with
  | case1 => rw [Nat.zero_add]
  | case2 o before c after m ih =>
    rw [ih, show m + 1 + n = m + n + 1 by omega, forward]
  | case3 o before m =>
    rw [show m + 1 + n = m + n + 1 by omega, forward]
    cases n <;> rfl

/-- The match with the least start is the first of all matches from a place on. -/
theorem leastMatch_eq_some_iff {lengthAt : Place → Option Nat} {p : Place} {i : Interval} :
    leastMatch lengthAt p.offset p.before p.after = some i ↔
      ∃ k n, k ≤ p.after.length ∧ lengthAt (p.forward k) = some n ∧
        i = ⟨p.offset + k, p.offset + k + n⟩ ∧ ∀ j < k, lengthAt (p.forward j) = none := by
  obtain ⟨o, before, after⟩ := p
  induction after generalizing o before with
  | nil =>
    simp only [leastMatch, Option.map_eq_some_iff, List.length_nil, Nat.le_zero_eq]
    constructor
    · rintro ⟨n, hn, rfl⟩
      exact ⟨0, n, rfl, hn, rfl, fun j hj => absurd hj (by omega)⟩
    · rintro ⟨k, n, rfl, hn, rfl, -⟩
      exact ⟨n, hn, rfl⟩
  | cons c after ih =>
    rw [leastMatch]
    cases here : lengthAt ⟨o, before, c :: after⟩ with
    | some m =>
      simp only [Option.some.injEq]
      constructor
      · rintro rfl
        exact ⟨0, m, Nat.zero_le _, here, rfl, fun j hj => absurd hj (by omega)⟩
      · rintro ⟨k, n, hk, hn, rfl, hfirst⟩
        cases k with
        | zero =>
          have : some m = some n := here.symm.trans hn
          simp_all
        | succ k => exact absurd (hfirst 0 (by omega)) (by simp [forward, here])
    | none =>
      simp only [ih (o + 1) (c :: before)]
      constructor
      · rintro ⟨k, n, hk, hn, rfl, hfirst⟩
        refine ⟨k + 1, n, by simpa using hk, hn, ?_, ?_⟩
        · simp only [Interval.mk.injEq]
          omega
        · rintro (_ | j) hj
          · exact here
          · exact hfirst j (by omega)
      · rintro ⟨k, n, hk, hn, rfl, hfirst⟩
        cases k with
        | zero => exact absurd (here.symm.trans hn) (by simp)
        | succ k =>
          refine ⟨k, n, by simpa using hk, hn, ?_, fun j hj => hfirst (j + 1) (by omega)⟩
          simp only [Interval.mk.injEq]
          omega

theorem leastMatch_eq_none_iff {lengthAt : Place → Option Nat} {p : Place} :
    leastMatch lengthAt p.offset p.before p.after = none ↔
      ∀ k ≤ p.after.length, lengthAt (p.forward k) = none := by
  obtain ⟨o, before, after⟩ := p
  induction after generalizing o before with
  | nil => simp [leastMatch, forward]
  | cons c after ih =>
    rw [leastMatch]
    cases here : lengthAt ⟨o, before, c :: after⟩ with
    | some m =>
      simp only [reduceCtorEq, false_iff]
      intro h
      exact absurd (h 0 (Nat.zero_le _)) (by simp [forward, here])
    | none =>
      simp only [ih (o + 1) (c :: before)]
      constructor
      · rintro h (_ | k) hk
        · exact here
        · exact h k (by simpa using hk)
      · exact fun h k hk => h (k + 1) (by simpa using hk)

/-- A match at the place itself is found before all others. -/
theorem leastMatch_here_iff {lengthAt : Place → Option Nat} {p : Place} {n : Nat} :
    leastMatch lengthAt p.offset p.before p.after = some ⟨p.offset, p.offset + n⟩ ↔
      lengthAt p = some n := by
  rw [leastMatch_eq_some_iff]
  constructor
  · rintro ⟨k, m, -, hm, heq, -⟩
    simp only [Interval.mk.injEq] at heq
    obtain rfl : k = 0 := by omega
    obtain rfl : n = m := by omega
    rwa [forward] at hm
  · intro h
    exact ⟨0, n, Nat.zero_le _, by rwa [forward], rfl, fun j hj => absurd hj (by omega)⟩

/-- A search that starts later finds the same, as long as that still lies ahead. -/
theorem leastMatch_forward {lengthAt : Place → Option Nat} {p : Place} {i : Interval} {k : Nat}
    (h : leastMatch lengthAt p.offset p.before p.after = some i) (hk : p.offset + k ≤ i.start) :
    leastMatch lengthAt (p.forward k).offset (p.forward k).before (p.forward k).after = some i := by
  obtain ⟨j, n, hj, hn, rfl, hfirst⟩ := leastMatch_eq_some_iff.1 h
  simp only at hk
  have hlen : k ≤ p.after.length := by omega
  refine leastMatch_eq_some_iff.2 ⟨j - k, n, ?_, ?_, ?_, ?_⟩
  · rw [after_forward, List.length_drop]
    omega
  · rw [forward_forward, Nat.add_sub_cancel' (by omega)]
    exact hn
  · rw [offset_forward hlen]
    simp only [Interval.mk.injEq]
    omega
  · intro m hm
    rw [forward_forward]
    exact hfirst _ (by omega)

theorem leastMatch_forward_none {lengthAt : Place → Option Nat} {p : Place} {k : Nat}
    (h : leastMatch lengthAt p.offset p.before p.after = none) (hk : k ≤ p.after.length) :
    leastMatch lengthAt (p.forward k).offset (p.forward k).before (p.forward k).after = none := by
  apply leastMatch_eq_none_iff.2
  intro j hj
  rw [after_forward, List.length_drop] at hj
  rw [forward_forward]
  exact leastMatch_eq_none_iff.1 h _ (by omega)

end Place

namespace Matcher

/-- The length of a match that is neither empty nor refused. -/
def properAt (m : Matcher) (accept : Place → Bool) (p : Place) : Option Nat :=
  (m.lengthAt p).filter fun n => decide (0 < n) && accept p

theorem properAt_eq_some_iff {m : Matcher} {accept : Place → Bool} {p : Place} {n : Nat} :
    m.properAt accept p = some n ↔ m.lengthAt p = some n ∧ 0 < n ∧ accept p = true := by
  simp [properAt, Option.filter_eq_some_iff]

theorem properAt_nil (m : Matcher) (accept : Place → Bool) (o : Nat) (before : Text) :
    m.properAt accept ⟨o, before, []⟩ = none := by
  apply Option.eq_none_iff_forall_not_mem.2
  intro n hn
  obtain ⟨hlen, hpos, -⟩ := properAt_eq_some_iff.1 hn
  have := m.lengthAt_le _ _ hlen
  simp only [List.length_nil] at this
  omega

/-- Skipping empty and refused matches one by one finds the first match that is neither. -/
theorem settle_eq (m : Matcher) (accept : Place → Bool) (o : Nat) (before after : Text) :
    m.settle accept (Place.leastMatch m.lengthAt o before after) o before after =
      Place.leastMatch (m.properAt accept) o before after := by
  induction after generalizing o before with
  | nil => simp [settle, Place.leastMatch, properAt_nil]
  | cons c after ih =>
    have onward := m.search_eq ⟨o + 1, c :: before, after⟩
    rw [Place.leastMatch, Place.leastMatch]
    cases here : m.lengthAt ⟨o, before, c :: after⟩ with
    | some n =>
      simp only [settle, Nat.lt_irrefl, if_false, Interval.isEmpty, onward, ih]
      by_cases good : 0 < n ∧ accept ⟨o, before, c :: after⟩ = true
      · rw [properAt_eq_some_iff.2 ⟨here, good.1, good.2⟩]
        simp [good.2, show ¬o + n ≤ o by omega]
      · have bad : m.properAt accept ⟨o, before, c :: after⟩ = none := by
          simp only [properAt, here, Option.filter_some]
          rw [if_neg (by simpa using good)]
        rw [bad]
        have : (decide (o + n ≤ o) || !accept ⟨o, before, c :: after⟩) = true := by
          simp only [Bool.or_eq_true, decide_eq_true_eq, Bool.not_eq_true']
          by_cases hn : 0 < n
          · exact .inr (by simpa [hn] using good)
          · exact .inl (by omega)
        rw [if_pos this]
    | none =>
      have bad : m.properAt accept ⟨o, before, c :: after⟩ = none := by
        simp [properAt, here]
      simp only [bad, ← ih]
      cases hi : Place.leastMatch m.lengthAt (o + 1) (c :: before) after with
      | none => cases after <;> simp [settle]
      | some i =>
        have := (Place.leastMatch_bounds m.lengthAt_le hi).1
        rw [settle]
        simp [show o < i.start by omega]

/-- A search for an accepted match is the search for the first proper one. -/
theorem find_eq (m : Matcher) (accept : Place → Bool) (p : Place) :
    m.find accept p = Place.leastMatch (m.properAt accept) p.offset p.before p.after := by
  rw [find, m.search_eq, settle_eq]

theorem properAt_le {m : Matcher} {accept : Place → Bool} (p : Place) (n : Nat)
    (h : m.properAt accept p = some n) : n ≤ p.after.length :=
  m.lengthAt_le p n (properAt_eq_some_iff.1 h).1

theorem find_bounds {m : Matcher} {accept : Place → Bool} {p : Place} {i : Interval}
    (h : m.find accept p = some i) :
    p.offset ≤ i.start ∧ i.start < i.stop ∧ i.stop ≤ p.offset + p.after.length := by
  rw [find_eq] at h
  obtain ⟨k, n, hk, hn, rfl, -⟩ := Place.leastMatch_eq_some_iff.1 h
  have hle := properAt_le _ _ hn
  rw [Place.after_forward, List.length_drop] at hle
  have := (properAt_eq_some_iff.1 hn).2.1
  dsimp only
  omega

/-- A match that was found stays the next one until the search has gone past its start. -/
theorem find_forward {m : Matcher} {accept : Place → Bool} {p : Place} {i : Interval} {k : Nat}
    (h : m.find accept p = some i) (hk : p.offset + k ≤ i.start) :
    m.find accept (p.forward k) = some i := by
  rw [find_eq] at h ⊢
  exact Place.leastMatch_forward h hk

theorem find_forward_none {m : Matcher} {accept : Place → Bool} {p : Place} {k : Nat}
    (h : m.find accept p = none) (hk : k ≤ p.after.length) :
    m.find accept (p.forward k) = none := by
  rw [find_eq] at h ⊢
  exact Place.leastMatch_forward_none h hk

end Matcher
end CodeBuffer
