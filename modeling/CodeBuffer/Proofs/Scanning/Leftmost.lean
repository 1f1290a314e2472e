import CodeBuffer.Proofs.Scanning.Search

namespace CodeBuffer

/-- The first of some intervals from `pos` on. -/
structure Interval.IsFirst (P : Interval → Prop) (pos : Nat) (i : Interval) : Prop where
  here : P i
  pos_le : pos ≤ i.start
  least : ∀ j, P j → pos ≤ j.start → i.start ≤ j.start

theorem Interval.isFirst_congr {P : Interval → Prop} {pos pos' : Nat} {i : Interval}
    (h : ∀ j, P j → (pos ≤ j.start ↔ pos' ≤ j.start)) : i.IsFirst P pos ↔ i.IsFirst P pos' := by
  constructor
  · rintro ⟨here, hle, hleast⟩
    exact ⟨here, (h i here).1 hle, fun j hj hj' => hleast j hj ((h j hj).2 hj')⟩
  · rintro ⟨here, hle, hleast⟩
    exact ⟨here, (h i here).2 hle, fun j hj hj' => hleast j hj ((h j hj).1 hj')⟩

namespace Place

@[simp] theorem offset_front (o : Nat) (t : Text) : (front o t).offset = o := rfl

@[simp] theorem after_front (o : Nat) (t : Text) : (front o t).after = t := rfl

/-- A walk ends at the end of the text. -/
theorem forward_min (p : Place) (n : Nat) : p.forward n = p.forward (min n p.after.length) := by
  fun_induction forward p n with
  | case1 => rw [Nat.zero_min, forward]
  | case2 o before c after n ih =>
    rw [ih, List.length_cons, Nat.succ_eq_add_one, Nat.add_min_add_right, forward]
  | case3 => rw [List.length_nil, Nat.min_zero, forward]

end Place

namespace Matcher

/-- A matcher that sees the text `u`, which begins at `base`, matches a piece of it that is not
empty. -/
structure Matches (m : Matcher) (base : Nat) (u : Text) (i : Interval) : Prop where
  base_le : base ≤ i.start
  start_lt : i.start < i.stop
  stop_le : i.stop ≤ base + u.length
  lengthAt : m.lengthAt ((Place.front base u).forward (i.start - base)) = some (i.stop - i.start)

/-- A match whose start is accepted. -/
def Accepts (m : Matcher) (accept : Place → Bool) (base : Nat) (u : Text) (i : Interval) : Prop :=
  m.Matches base u i ∧ accept ((Place.front base u).forward (i.start - base)) = true

variable {m : Matcher} {accept : Place → Bool} {base pos k n : Nat} {u : Text} {i j : Interval}

/-- Where a match begins determines where it ends. -/
theorem Matches.eq_of_start (hi : m.Matches base u i) (hj : m.Matches base u j)
    (h : i.start = j.start) : i = j := by
  have hlen := hi.lengthAt
  rw [h, hj.lengthAt, Option.some.injEq] at hlen
  have hlt := hi.start_lt
  have hlt' := hj.start_lt
  obtain ⟨a, b⟩ := i
  obtain ⟨c, d⟩ := j
  simp only [Interval.mk.injEq] at *
  omega

theorem properAt_front (hk : k ≤ u.length) :
    m.properAt accept ((Place.front base u).forward k) = some n ↔
      m.Accepts accept base u ⟨base + k, base + k + n⟩ := by
  rw [properAt_eq_some_iff]
  constructor
  · rintro ⟨hlen, hpos, haccept⟩
    have hfits := m.lengthAt_le _ _ hlen
    rw [Place.after_forward, Place.after_front, List.length_drop] at hfits
    refine ⟨⟨Nat.le_add_right base k, Nat.lt_add_of_pos_right hpos, ?_, ?_⟩, ?_⟩
    · dsimp only
      omega
    · rw [Nat.add_sub_cancel_left, Nat.add_sub_cancel_left]
      exact hlen
    · rw [Nat.add_sub_cancel_left]
      exact haccept
  · rintro ⟨hmatch, haccept⟩
    have hlen := hmatch.lengthAt
    have hpos := hmatch.start_lt
    rw [Nat.add_sub_cancel_left] at haccept hlen
    rw [Nat.add_sub_cancel_left] at hlen
    exact ⟨hlen, by simpa using hpos, haccept⟩

theorem find_forward_eq_none_iff (hk : k ≤ u.length) :
    m.find accept ((Place.front base u).forward k) = none ↔
      ∀ j, m.Accepts accept base u j → j.start < base + k := by
  rw [find_eq, Place.leastMatch_eq_none_iff, Place.after_forward, Place.after_front,
    List.length_drop]
  simp only [Place.forward_forward]
  constructor
  · intro h j hj
    have hlo := hj.1.base_le
    have hlt := hj.1.start_lt
    have hle := hj.1.stop_le
    refine Nat.lt_of_not_le fun hpos => ?_
    have hnone := h (j.start - base - k) (by omega)
    have hsome : m.properAt accept ((Place.front base u).forward (k + (j.start - base - k))) =
        some (j.stop - j.start) := by
      rw [properAt_front (by omega), show base + (k + (j.start - base - k)) = j.start by omega,
        Nat.add_sub_cancel' (Nat.le_of_lt hlt)]
      exact hj
    exact absurd (hnone.symm.trans hsome) (by simp)
  · intro h l hl
    apply Option.eq_none_iff_forall_not_mem.2
    intro n hn
    have hbefore := h _ ((properAt_front (by omega)).1 hn)
    dsimp only at hbefore
    omega

theorem isFirst_of_find_forward (hk : k ≤ u.length)
    (h : m.find accept ((Place.front base u).forward k) = some i) :
    i.IsFirst (m.Accepts accept base u) (base + k) := by
  rw [find_eq, Place.leastMatch_eq_some_iff, Place.offset_forward (by exact hk),
    Place.after_forward, Place.after_front, Place.offset_front, List.length_drop] at h
  obtain ⟨l, n, hl, hn, rfl, hfirst⟩ := h
  simp only [Place.forward_forward] at hn hfirst
  have here : m.Accepts accept base u ⟨base + (k + l), base + (k + l) + n⟩ :=
    (properAt_front (by omega)).1 hn
  rw [← Nat.add_assoc] at here
  refine ⟨here, Nat.le_add_right _ _, fun j hj hpos => Nat.le_of_not_lt fun hlt => ?_⟩
  have hstart := hj.1.start_lt
  have hle := hj.1.stop_le
  dsimp only at hlt
  have hsome : m.properAt accept ((Place.front base u).forward (k + (j.start - base - k))) =
      some (j.stop - j.start) := by
    rw [properAt_front (by omega), show base + (k + (j.start - base - k)) = j.start by omega,
      Nat.add_sub_cancel' (Nat.le_of_lt hstart)]
    exact hj
  exact absurd ((hfirst _ (by omega)).symm.trans hsome) (by simp)

/-- What a search from `pos` on does not find is not there. -/
theorem find_front_eq_none_iff :
    m.find accept ((Place.front base u).forward (pos - base)) = none ↔
      ∀ j, m.Accepts accept base u j → j.start < pos := by
  rw [Place.forward_min, Place.after_front, find_forward_eq_none_iff (Nat.min_le_right _ _)]
  refine forall_congr' fun j => imp_congr_right fun hj => ?_
  have hlo := hj.1.base_le
  have hlt := hj.1.start_lt
  have hle := hj.1.stop_le
  omega

/-- A search from `pos` on finds the first accepted match there. -/
theorem find_front_eq_some_iff :
    m.find accept ((Place.front base u).forward (pos - base)) = some i ↔
      i.IsFirst (m.Accepts accept base u) pos := by
  have first {j : Interval} (h : m.find accept ((Place.front base u).forward (pos - base)) =
      some j) : j.IsFirst (m.Accepts accept base u) pos := by
    rw [Place.forward_min, Place.after_front] at h
    refine (Interval.isFirst_congr fun j hj => ?_).1
      (isFirst_of_find_forward (Nat.min_le_right _ _) h)
    have hlo := hj.1.base_le
    have hlt := hj.1.start_lt
    have hle := hj.1.stop_le
    omega
  refine ⟨first, fun hi => ?_⟩
  cases h : m.find accept ((Place.front base u).forward (pos - base)) with
  | none =>
    have hbefore := find_front_eq_none_iff.1 h i hi.here
    have hle := hi.pos_le
    omega
  | some j =>
    have hj := first h
    have hstart := Nat.le_antisymm (hj.least i hi.here hi.pos_le) (hi.least j hj.here hj.pos_le)
    rw [hj.here.1.eq_of_start hi.here.1 hstart]

/-- What holds of the first match, and of a match wherever it holds of an earlier one, holds of all
matches from `pos` on. -/
theorem forall_isFirst_iff {Q : Interval → Prop} (later : ∀ i j, i.start < j.start → Q i → Q j) :
    (∀ i : Interval, i.IsFirst (m.Accepts accept base u) pos → Q i) ↔
      ∀ i, m.Accepts accept base u i → pos ≤ i.start → Q i := by
  constructor
  · intro h j hj hpos
    cases hfind : m.find accept ((Place.front base u).forward (pos - base)) with
    | none =>
      have hbefore := find_front_eq_none_iff.1 hfind j hj
      omega
    | some i =>
      have hi := find_front_eq_some_iff.1 hfind
      rcases Nat.eq_or_lt_of_le (hi.least j hj hpos) with hstart | hlt
      · rw [← hi.here.1.eq_of_start hj.1 hstart]
        exact h i hi
      · exact later i j hlt (h i hi)
  · intro h i hi
    exact h i hi.here hi.pos_le

end Matcher

namespace Interval

/-- What several searches find that goes before all else; of equal finds the first search's. -/
def pick {α : Type} (less : Interval → Interval → Bool) (find : α → Option Interval) :
    List α → Option (Interval × α)
  | [] => none
  | a :: rest =>
    match find a, pick less find rest with
    | none, later => later
    | some i, none => some (i, a)
    | some i, some (j, b) => if less j i then some (j, b) else some (i, a)

section
variable {α : Type} {less : Interval → Interval → Bool} {find : α → Option Interval} {as : List α}
  {i : Interval} {a : α}

/-- The find of a search goes before those of the searches ahead of it, and none of those behind it
goes before it. -/
def Leads (less : Interval → Interval → Bool) (find : α → Option Interval) (as : List α)
    (i : Interval) (a : α) : Prop :=
  ∃ ahead behind, as = ahead ++ a :: behind ∧ find a = some i ∧
    (∀ b ∈ ahead, ∀ j, find b = some j → less i j = true) ∧
    ∀ b ∈ behind, ∀ j, find b = some j → less j i = false

theorem leads_cons_iff {b : α} :
    Leads less find (b :: as) i a ↔
      (a = b ∧ find b = some i ∧ ∀ c ∈ as, ∀ j, find c = some j → less j i = false) ∨
        (Leads less find as i a ∧ ∀ j, find b = some j → less i j = true) := by
  constructor
  · rintro ⟨_ | ⟨c, ahead⟩, behind, hsplit, here, hahead, hbehind⟩
    · obtain ⟨rfl, rfl⟩ := List.cons.inj hsplit
      exact .inl ⟨rfl, here, hbehind⟩
    · obtain ⟨rfl, rfl⟩ := List.cons.inj hsplit
      exact .inr ⟨⟨ahead, behind, rfl, here, fun c hc => hahead c (List.mem_cons_of_mem _ hc),
        hbehind⟩, hahead b List.mem_cons_self⟩
  · rintro (⟨rfl, here, hbehind⟩ | ⟨⟨ahead, behind, rfl, here, hahead, hbehind⟩, hb⟩)
    · exact ⟨[], as, rfl, here, fun c hc => absurd hc List.not_mem_nil, hbehind⟩
    · refine ⟨b :: ahead, behind, rfl, here, fun c hc => ?_, hbehind⟩
      rcases List.mem_cons.1 hc with rfl | hc
      · exact hb
      · exact hahead c hc

theorem pick_eq_none_iff : pick less find as = none ↔ ∀ a ∈ as, find a = none := by
  induction as with
  | nil => simp [pick]
  | cons a as ih =>
    rw [List.forall_mem_cons, ← ih, pick]
    split
    · simp_all
    · simp_all
    · split <;> simp_all

theorem Leads.mem (h : Leads less find as i a) : a ∈ as ∧ find a = some i := by
  obtain ⟨ahead, behind, rfl, here, -⟩ := h
  exact ⟨by simp, here⟩

/-- If the find that leads does not go before some other one, no find does. -/
theorem Leads.not_less {k : Interval} (h : Leads less find as i a)
    (trans : ∀ i j k, less i j = true → less j k = true → less i k = true)
    (between : ∀ i j k, less i k = true → less i j = true ∨ less j k = true)
    (hik : less i k = false) : ∀ b ∈ as, ∀ j, find b = some j → less j k = false := by
  intro b hb j hj
  apply Bool.eq_false_iff.2
  intro hjk
  obtain ⟨ahead, behind, rfl, here, hahead, hbehind⟩ := h
  -- What goes before `k` goes before `i` as well.
  have hji : less j i = true := by simpa [hik] using between j i k hjk
  rcases List.mem_append.1 hb with hb | hb
  · have hik' := trans i j k (hahead b hb j hj) hjk
    rw [hik] at hik'
    cases hik'
  · rcases List.mem_cons.1 hb with rfl | hb
    · rw [here, Option.some.injEq] at hj
      rw [hj, hjk] at hik
      cases hik
    · rw [hbehind b hb j hj] at hji
      cases hji

/-- The find that is picked is the one that leads, if the finds can be told apart by an order. -/
theorem pick_eq_some_iff (trans : ∀ i j k, less i j = true → less j k = true → less i k = true)
    (between : ∀ i j k, less i k = true → less i j = true ∨ less j k = true) :
    pick less find as = some (i, a) ↔ Leads less find as i a := by
  induction as generalizing i a with
  | nil => simp [pick, Leads]
  | cons b as ih =>
    rw [leads_cons_iff, pick, ← ih]
    cases hb : find b with
    | none => simp
    | some k =>
      cases hrest : pick less find as with
      | none =>
        have hnone := pick_eq_none_iff.1 hrest
        simp only [Option.some.injEq, Prod.mk.injEq, reduceCtorEq, false_and, or_false]
        constructor
        · rintro ⟨rfl, rfl⟩
          refine ⟨rfl, rfl, fun c hc j hj => ?_⟩
          rw [hnone c hc] at hj
          cases hj
        · rintro ⟨rfl, rfl, -⟩
          exact ⟨rfl, rfl⟩
      | some found =>
        obtain ⟨j, c⟩ := found
        have hleads := ih.1 hrest
        obtain ⟨hc, hj⟩ := hleads.mem
        cases hless : less j k with
        | true =>
          simp only [hless, if_true, Option.some.injEq, Prod.mk.injEq, forall_eq']
          constructor
          · rintro ⟨rfl, rfl⟩
            exact .inr ⟨⟨rfl, rfl⟩, hless⟩
          · rintro (⟨rfl, rfl, hbehind⟩ | ⟨hfound, -⟩)
            · rw [hbehind c hc j hj] at hless
              cases hless
            · exact hfound
        | false =>
          simp only [hless, Bool.false_eq_true, if_false, Option.some.injEq, Prod.mk.injEq,
            forall_eq']
          constructor
          · rintro ⟨rfl, rfl⟩
            exact .inl ⟨rfl, rfl, hleads.not_less trans between hless⟩
          · rintro (⟨rfl, rfl, -⟩ | ⟨⟨rfl, rfl⟩, hbefore⟩)
            · exact ⟨rfl, rfl⟩
            · rw [hless] at hbefore
              cases hbefore

end
end Interval
end CodeBuffer
